import Munch.Text.Basic

/-!
# Editing a line

The console reads keys, and keys make lines. Most keys put a rune in front of the cursor; control
keys move the cursor, delete, or end the line.

The line is kept as two lists, what is before the cursor (in reverse) and what is behind it.
-/

namespace Munch.Console

/-- A line with a cursor in it, and the text that was cut out last. -/
structure LineEditor where
  /-- the runes before the cursor, the last one first -/
  before : List Rune := []
  after : List Rune := []
  cut : List Rune := []
  deriving DecidableEq, Repr, Inhabited

/-- What a key leads to. -/
inductive Response where
  | nothing
  /-- the key is of no use here -/
  | bell
  /-- a line is complete -/
  | entered (line : Text)
  /-- there will be no more lines -/
  | closed
  deriving DecidableEq, Repr, Inhabited

/-- Is the rune a letter or a digit of ASCII? -/
def isWordRune (r : Rune) : Bool :=
  (97 ≤ r && r ≤ 122) || (65 ≤ r && r ≤ 90) || (48 ≤ r && r ≤ 57)

/-- Splits the runes before the cursor behind the start of the last word, if one starts behind the
first rune. -/
def lastWord? : List Rune → Option (List Rune × List Rune)
  | [] => none
  | [_] => none
  | r :: s :: rest =>
    if isWordRune r && !isWordRune s then some ([r], s :: rest)
    else (lastWord? (s :: rest)).map fun (word, rest) => (r :: word, rest)

namespace LineEditor

/-- All runes of the line. -/
def runes (e : LineEditor) : List Rune := e.before.reverse ++ e.after

/-- An empty line. -/
def cleared (e : LineEditor) : LineEditor := { e with before := [], after := [] }

/-- Ends the line. -/
def enter (e : LineEditor) : Response × LineEditor := (.entered (Text.ofRunes e.runes), e.cleared)

/-- The end of the input ends the line, and if there is none the dialog. -/
def finish (e : LineEditor) : Response × LineEditor :=
  if e.runes.isEmpty then (.closed, e) else e.enter

/-- Deletes the rune behind the cursor. -/
def delete (e : LineEditor) : Response × LineEditor :=
  match e.after with
  | [] => (if e.before.isEmpty then .closed else .bell, e)
  | _ :: after => (.nothing, { e with after := after })

/-- Deletes the rune before the cursor. -/
def rubOut (e : LineEditor) : Response × LineEditor :=
  (if e.runes.isEmpty then .bell else .nothing, { e with before := e.before.tail })

/-- Cuts the last word before the cursor out; the whole line goes if it has no other word. -/
def rubOutWord (e : LineEditor) : LineEditor :=
  if e.before.isEmpty then e
  else
    match lastWord? e.before with
    | some (word, before) => { e with before := before, cut := word.reverse }
    | none => e.cleared

/-- Swaps the two runes around the cursor, or the last two at the end of the line. -/
def transpose (e : LineEditor) : LineEditor :=
  match e.before, e.after with
  | [], [r] => { e with before := [r], after := [] }
  | [], r :: s :: after => { e with before := [r, s], after := after }
  | r :: before, s :: after => { e with before := r :: s :: before, after := after }
  | r :: s :: before, [] => { e with before := s :: r :: before }
  | _, _ => e

/-- Presses a key. -/
def press (key : Rune) (e : LineEditor) : Response × LineEditor :=
  match key with
  | 0 => e.finish
  | 1 => (.nothing, { e with before := [], after := e.runes })
  | 2 => match e.before with
    | [] => (.nothing, e)
    | r :: before => (.nothing, { e with before := before, after := r :: e.after })
  | 3 => (.closed, e.cleared)
  | 4 => e.delete
  | 5 => (.nothing, { e with before := e.runes.reverse, after := [] })
  | 6 => match e.after with
    | [] => (.nothing, e)
    | r :: after => (.nothing, { e with before := r :: e.before, after := after })
  | 7 => (.nothing, e)
  | 8 | 127 => e.rubOut
  | 9 => (.bell, e)
  | 10 | 13 => e.enter
  | 11 => (.nothing, { e with after := [], cut := e.after })
  | 20 => (.nothing, e.transpose)
  | 21 =>
    (.nothing, if e.before.isEmpty then e else { e with before := [], cut := e.before.reverse })
  | 23 => (.nothing, e.rubOutWord)
  | 25 => (.nothing, { e with before := e.cut.reverse ++ e.before })
  | r => (.nothing, { e with before := r :: e.before })

end LineEditor

end Munch.Console
