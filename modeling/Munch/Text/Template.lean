import Munch.Text.Basic

/-!
# Texts taken for templates

In a template a percent sign starts a directive: flags, an index in brackets, a width, a precision,
and a verb, each of them but the verb optional. `Text.filled` fills a template without any values,
so that each directive is replaced by a remark, `%!d(MISSING)` for instance, and `%%` by a percent
sign.
-/

namespace Munch.Template

/-- The rest of a template, and whether every index so far was good. -/
structure Place where
  rest : Text
  good : Bool := true
  /-- was the item just read an index? -/
  indexed : Bool := false
  /-- remarks made so far -/
  remarks : Text := []

/-- Is the symbol a decimal digit? -/
def isDigit : Symbol → Bool
  | .char c => c.isDigit
  | .stray _ => false

/-- Skips digits; `n` is the number so far. -/
def skipDigits (n : Nat) (found : Bool) : Text → Bool × Text
  | [] => (found, [])
  | s :: rest =>
    if isDigit s then
      if 1000000 < n then (false, [])
      else skipDigits (n * 10 + (s.shown.toNat - 48)) true rest
    else (found, s :: rest)

/-- Skips a number. One beyond a million is a mistake that takes the whole rest. Returns whether
there was a number, and the rest. -/
def skipNumber (t : Text) : Bool × Text := skipDigits 0 false t

/-- Skips an index in brackets. As there are no values, no index is good. -/
def skipIndex (p : Place) : Place :=
  match p.rest with
  | .char '[' :: t =>
    match t.span (!·.is ']') with
    | (inner, _ :: after) =>
      if t.length < 2 then { p with rest := t, good := false, indexed := false }
      else
        let (found, left) := skipNumber inner
        { p with rest := after, good := false, indexed := found && left.isEmpty }
    | (_, []) => { p with rest := t, good := false, indexed := false }
  | _ => { p with indexed := false }

/-- Skips a width, which may be a star that has no value. -/
def skipWidth (p : Place) : Place :=
  match p.rest with
  | .char '*' :: t =>
    { p with rest := t, indexed := false, remarks := p.remarks ++ "%!(BADWIDTH)" }
  | t =>
    let (found, rest) := skipNumber t
    { p with rest := rest, good := p.good && !(p.indexed && found) }

/-- Skips a precision, if there is one. -/
def skipPrecision (p : Place) : Place :=
  match p.rest with
  | .char '.' :: t =>
    let p := skipIndex { p with rest := t, good := p.good && !p.indexed }
    match p.rest with
    | .char '*' :: t =>
      { p with rest := t, indexed := false, remarks := p.remarks ++ "%!(BADPREC)" }
    | t => { p with rest := (skipNumber t).2 }
  | _ => p

/-- Is the symbol a flag of a directive? -/
def isFlag (s : Symbol) : Bool := s.is '#' || s.is '0' || s.is '+' || s.is '-' || s.is ' '

/-- Reads a directive behind its percent sign. Returns what it is replaced by, and the rest. -/
def readDirective (t : Text) : Text × Text :=
  let p := skipIndex { rest := t.dropWhile isFlag }
  let p := skipPrecision (skipWidth p)
  let p := if p.indexed then p else skipIndex p
  match p.rest with
  | [] => (p.remarks ++ "%!(NOVERB)", [])
  | s :: rest =>
    let verb : Text := [.char s.shown]
    if s.is '%' then (p.remarks ++ "%", rest)
    else if !p.good then (p.remarks ++ "%!" ++ verb ++ "(BADINDEX)", rest)
    else (p.remarks ++ "%!" ++ verb ++ "(MISSING)", rest)

/-- Fills a template; each step takes a symbol at least. -/
def fill : (fuel : Nat) → Text → Text
  | 0, _ => []
  | _ + 1, [] => []
  | fuel + 1, s :: rest =>
    if s.is '%' then
      let (text, rest) := readDirective rest
      text ++ fill fuel rest
    else s :: fill fuel rest

end Munch.Template

namespace Munch

/-- The text as a template, filled without any values. -/
def Text.filled (t : Text) : Text := Template.fill t.length t

end Munch
