import Munch.RuleFile.Line

/-!
# Loading a rule file

The lines of a rule file are read and applied one after the other; the first line that goes wrong
ends the loading with its number. Empty lines and lines that start with `#` say nothing. A line can
be too long to be read.

* `load` makes the lexer of a rule file.
* `outline` lists the rules of a lexer by state.
-/

namespace Munch.RuleFile

/-- The number of bytes that a line may have. -/
def lineLimit : Nat := 65535

/-- A line has more bytes than the limit allows. -/
def lineTooLong : Error := .other "bufio.Scanner: token too long"

/-- The lines of a text. What follows the last newline is a line only if it is not empty. -/
def lines (t : Text) : List Text :=
  match (Text.pieces '\n' t).reverse with
  | [] :: rest => rest.reverse
  | all => all.reverse

/-- Does a trimmed line say nothing? -/
def saysNothing (line : Text) : Bool := line.isEmpty || line.startsWith "#"

/-- Reads a line and applies it. Returns whether the next line is a clause. -/
def applyLine (inRules : Bool) (line : Text) (lx : DirectedLexer) :
    Except Error (Bool × DirectedLexer) :=
  if inRules then
    match Clause.parse line with
    | .error e => .error e
    | .ok c => (c.apply lx).map (true, ·)
  else
    match Declaration.parse line with
    | .error e => .error e
    | .ok d => (d.apply lx).map (d == .divider, ·)

/-- Loads lines, the first of which has the number `n`. -/
def loadLines :
    (n : Nat) → (inRules : Bool) → List Text → DirectedLexer → Except Error DirectedLexer
  | _, _, [], lx => .ok lx
  | n, inRules, line :: rest, lx =>
    if lineLimit < line.size then .error lineTooLong
    else
      let line := line.trim
      if saysNothing line then loadLines (n + 1) inRules rest lx
      else
        match applyLine inRules line lx with
        | .error e => .error (.inLine n e)
        | .ok (inRules, lx) => loadLines (n + 1) inRules rest lx

/-- The lexer of a rule file, which puts its tokens out. -/
def load (t : Text) : Except Error DirectedLexer :=
  loadLines 1 false (lines t) { handler := some () }

/-- The name of a state, with a remark if it is exclusive. -/
def stateLabel (lx : DirectedLexer) (state : Text) : Text :=
  if lx.states.isExclusive state then state ++ Text.ofString " (exclusive)" else state

/-- The states of a lexer, each with the patterns of its rules and a mark for a default. -/
def outline (lx : DirectedLexer) : List (Text × List Text) :=
  lx.states.all.map fun state =>
    (stateLabel lx state,
      lx.patterns state ++ if lx.hasDefault state then [Text.ofString "<default>"] else [])

end Munch.RuleFile
