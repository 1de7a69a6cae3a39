import Munch.Pattern.Assembly
import Munch.Pattern.Reading

/-!
# Reading a pattern

`Node.parse` reads the text of a pattern. Lines are the unit of `^` and `$`, and `.` takes no
newline, unless the pattern switches these modes for itself; `caseless` folds case from the start.

Main entry: `Regex.parse`, the meaning of a pattern or the fault that keeps it from being read.
-/

namespace Munch.Pattern

/-- The rest of a pattern, and the text from the repetition just read on, if there was one. -/
structure Rest where
  text : Text
  repetition : Option Text := none

/-- A reader's result as a step of building. -/
def read {α : Type} (r : Reading α) : Build α := fun a => r.map fun x => (x, a)

/-! ## Repetitions -/

/-- Reads a decimal number without leading zeros. A number of more than eight digits is cut off to
one that is too large for any count. -/
def readCount (t : Text) : Option (Nat × Text) :=
  let isDigit : Symbol → Bool := fun | .char c => c.isDigit | .stray _ => false
  match t.span isDigit with
  | ([], _) => none
  | (.char '0' :: _ :: _, _) => none
  | (ds, rest) => some ((ds.take 9).foldl (fun n s => n * 10 + (s.shown.toNat - 48)) 0, rest)

/-- Reads the bounds of a counted repetition: the text starts behind the opening brace. -/
def readBounds (t : Text) : Option (Nat × Option Nat × Text) := do
  let (least, t) ← readCount t
  match t with
  | .char '\x7d' :: rest => some (least, some least, rest)
  | .char ',' :: .char '\x7d' :: rest => some (least, none, rest)
  | .char ',' :: t =>
    let (most, t) ← readCount t
    match t with
    | .char '\x7d' :: rest => some (least, some most, rest)
    | _ => none
  | _ => none

/-- Repeats the topmost part. `before` is the text from the operator on, `after` what follows it; a
question mark there makes the repetition lazy. -/
def repeatPart (wrap : (lazy : Bool) → Node → Node) (before after : Text) (last : Option Text) :
    Build Rest := do
  let lazy := (← get).flags.lazy
  let (lazy, after) := match after with
    | .char '?' :: rest => (!lazy, rest)
    | t => (lazy, t)
  match last with
  | some from_ => throw ⟨.nestedRepeat, excerpt from_ after⟩
  | none =>
    match ← repeatTop (wrap lazy) with
    | none => throw ⟨.missingOperand, excerpt before after⟩
    | some (.counted lazy least most body) =>
      let node : Node := .counted lazy least most body
      if (2 ≤ least || 2 ≤ most.getD 0) && !node.countsFit 1000 then
        throw ⟨.repeatCount, excerpt before after⟩
      pure { text := after, repetition := some before }
    | some _ => pure { text := after, repetition := some before }

/-- Reads a counted repetition; an opening brace that starts none is a literal. -/
def readCounted (before : Text) (last : Option Text) : Build Rest := do
  match readBounds (before.drop 1) with
  | none =>
    pushLiteral 123
    pure { text := before.drop 1 }
  | some (least, most, after) =>
    if 1000 < least || 1000 < most.getD 0 || (most.isSome && most.getD 0 < least) then
      throw ⟨.repeatCount, excerpt before after⟩
    repeatPart (fun lazy body => .counted lazy least most body) before after last

/-! ## Groups and modes -/

/-- The modes with the one of a letter switched on or off; `none` if the letter names none. -/
def Flags.switch (f : Flags) (on : Bool) : Char → Option Flags
  | 'i' => some { f with fold := on }
  | 'm' => some { f with oneLine := !on }
  | 's' => some { f with dotNewline := on }
  | 'U' => some { f with lazy := on }
  | _ => none

/-- Reads letters of modes up to a colon, which opens a group, or a parenthesis. `seen` says whether
there was a letter since the last change of sign; `whole` is the text from the group's start on. -/
def readModes (whole : Text) : (on seen : Bool) → Flags → Text → Build Rest
  | _, _, _, [] => throw ⟨.invalidGroup, whole⟩
  | _, _, _, .stray b :: rest => throw ⟨.invalidEncoding, .stray b :: rest⟩
  | on, seen, f, .char c :: rest =>
    if c = '-' ∧ on then readModes whole false false f rest
    else if (c = ':' ∨ c = ')') ∧ (on ∨ seen) then do
      if c = ':' then pushMark (.group false (← get).flags)
      modify fun a => { a with flags := f }
      pure { text := rest }
    else
      match f.switch on c with
      | some f => readModes whole on true f rest
      | none => throw ⟨.invalidGroup, excerpt whole rest⟩

/-- Is the text a name: at least one letter, digit or underscore? -/
def isName (t : Text) : Bool :=
  !t.isEmpty && t.all fun
    | .char c => c = '_' || isAlnum c.toNat
    | .stray _ => false

/-- Reads a group with a name; `start` is what stands before the name, `whole` the text from there
on. -/
def readNamed (start whole : Text) : Build Rest := do
  match cutAt '>' whole with
  | none =>
    if hasStray whole then throw ⟨.invalidEncoding, whole.dropWhile (fun s => !hasStray [s])⟩
    throw ⟨.invalidName, whole⟩
  | some (front, rest) =>
    let name := front.drop start.length
    if hasStray name then throw ⟨.invalidEncoding, name.dropWhile (fun s => !hasStray [s])⟩
    unless isName name do throw ⟨.invalidName, excerpt whole rest⟩
    pushMark (.group true (← get).flags)
    pure { text := rest }

/-- Reads what starts with an opening parenthesis. -/
def readGroup (whole : Text) : Build Rest := do
  match whole with
  | .char '(' :: .char '?' :: .char 'P' :: .char '<' :: _ :: _ => readNamed "(?P<" whole
  | .char '(' :: .char '?' :: .char '<' :: _ :: _ => readNamed "(?<" whole
  | .char '(' :: .char '?' :: t => readModes whole true false (← get).flags t
  | t =>
    pushMark (.group true (← get).flags)
    pure { text := t.drop 1 }

/-! ## Escapes outside of classes -/

/-- Splits a text at the first `\E`; without one, everything comes before it. -/
def cutQuotation : Text → Text × Text
  | .char '\\' :: .char 'E' :: rest => ([], rest)
  | s :: rest =>
    let (front, tail) := cutQuotation rest
    (s :: front, tail)
  | [] => ([], [])

/-- Pushes every symbol of a text as a literal. -/
def pushAll : Text → Build Unit
  | [] => pure ()
  | .char c :: rest => do
    pushLiteral c.toNat
    pushAll rest
  | .stray b :: rest => throw ⟨.invalidEncoding, .stray b :: rest⟩

/-- Reads a class or a literal behind a backslash. -/
def readEscaped (whole : Text) : Build Rest := do
  let fold := (← get).flags.fold
  make
  match ← read (readUnicodeClass fold whole) with
  | some (s, rest) =>
    push (.set s)
    pure { text := rest }
  | none =>
    match readLetterClass fold whole with
    | some (s, rest) =>
      push (.set s)
      pure { text := rest }
    | none =>
      giveBack
      let (p, rest) ← read (readEscape whole)
      pushLiteral p
      pure { text := rest }

/-- Reads what starts with a backslash. -/
def readBackslash (whole : Text) : Build Rest := do
  match whole with
  | _ :: .char 'A' :: rest => pushNew (.anchor .textStart); pure { text := rest }
  | _ :: .char 'b' :: rest => pushNew (.anchor .wordEdge); pure { text := rest }
  | _ :: .char 'B' :: rest => pushNew (.anchor .noWordEdge); pure { text := rest }
  | _ :: .char 'z' :: rest => pushNew (.anchor .textEnd); pure { text := rest }
  | _ :: .char 'C' :: rest => throw ⟨.invalidEscape, excerpt whole rest⟩
  | _ :: .char 'Q' :: t =>
    let (quotation, rest) := cutQuotation t
    pushAll quotation
    pure { text := rest }
  | _ => readEscaped whole

/-! ## The whole pattern -/

/-- Reads the first thing of a nonempty text. -/
def readNext (whole : Text) (last : Option Text) : Build Rest := do
  match whole with
  | [] => pure { text := [] }
  | .stray _ :: _ => throw ⟨.invalidEncoding, whole⟩
  | .char c :: rest =>
    match c with
    | '(' => readGroup whole
    | '|' => readBar; pure { text := rest }
    | ')' => closeGroup; pure { text := rest }
    | '^' =>
      pushNew (.anchor (if (← get).flags.oneLine then .textStart else .lineStart))
      pure { text := rest }
    | '$' =>
      pushNew (.anchor (if (← get).flags.oneLine then .textEnd else .lineEnd))
      pure { text := rest }
    | '.' =>
      pushNew (if (← get).flags.dotNewline then .any else .notNewline)
      pure { text := rest }
    | '[' =>
      make
      let (s, rest) ← read (readClass (← get).flags.fold whole)
      push (.set s)
      pure { text := rest }
    | '*' => repeatPart (fun _ body => .star body) whole rest last
    | '+' => repeatPart (fun _ body => .plus body) whole rest last
    | '?' => repeatPart (fun _ body => .option body) whole rest last
    | '\x7b' => readCounted whole last
    | '\\' => readBackslash whole
    | c => pushLiteral c.toNat; pure { text := rest }

/-- Reads things one after the other; each takes a symbol at least, so `fuel` is the length of the
text. -/
def readAll : (fuel : Nat) → Rest → Build Unit
  | 0, _ => pure ()
  | fuel + 1, rest => do
    if rest.text.isEmpty then pure ()
    else readAll fuel (← readNext rest.text rest.repetition)

/-- Reads a text from its first symbol to its last one. -/
def readWhole (whole : Text) : Build Node := do
  readAll whole.length { text := whole }
  closeAll
  match (← get).stack with
  | [.part node] => pure node
  | _ => failWhole .missingParen

/-- Reads a whole pattern. -/
def readPattern : Build Node := do readWhole (← get).pattern

/-- The pattern that a text spells. -/
def Node.parse (caseless : Bool) (pattern : Text) : Except Fault Node :=
  (readPattern.run { pattern := pattern, flags := { fold := caseless } }).map (·.1)

end Munch.Pattern

namespace Munch

/-- The meaning of a pattern. -/
def Regex.parse (caseless : Bool) (pattern : Text) : Except Pattern.Fault Regex :=
  (Pattern.Node.parse caseless pattern).map (·.regex)

end Munch
