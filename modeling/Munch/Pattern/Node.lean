import Munch.Pattern.Regex
import Munch.Unicode.Folding

/-!
# Patterns as they are read

A `Node` is a pattern the way its text spells it: literals of several code points, groups, counted
repetitions. `Node.regex` gives its meaning.

`Node.height` and `Node.weight` are the two measures that limit how large a pattern may be: how
deeply it nests, and how many steps it takes when all repetitions are written out.
-/

namespace Munch.Pattern

/-- A pattern as it is read. -/
inductive Node where
  | empty
  | literal (fold : Bool) (points : List Nat)
  | set (s : CharSet)
  | notNewline
  | any
  | anchor (a : Anchor)
  | capture (body : Node)
  | star (body : Node)
  | plus (body : Node)
  | option (body : Node)
  | counted (lazy : Bool) (least : Nat) (most : Option Nat) (body : Node)
  | sequence (parts : List Node)
  | choice (parts : List Node)
  deriving Repr, Inhabited

/-- The set of the code points that a literal code point stands for. -/
def literalSet (fold : Bool) (point : Nat) : CharSet :=
  if fold then .ofRanges ((Unicode.orbit point).map fun n => (n, n)) else .single point

mutual

/-- The meaning of a pattern. -/
def Node.regex : Node → Regex
  | .empty => .empty
  | .literal fold points =>
    .sequence (points.map fun p => .step (.ofSet (literalSet fold p)))
  | .set s => .step (.ofSet s)
  | .notNewline => .step .notNewline
  | .any => .step .any
  | .anchor a => .anchor a
  | .capture body => body.regex
  | .star body => .star body.regex
  | .plus body => .plus body.regex
  | .option body => .option body.regex
  | .counted _ least most body => .counted body.regex least most
  | .sequence parts => Node.sequenceRegex parts
  | .choice parts => Node.choiceRegex parts

/-- The parts one after the other. -/
def Node.sequenceRegex : List Node → Regex
  | [] => .empty
  | part :: parts => .seq part.regex (Node.sequenceRegex parts)

/-- One of the parts; of no parts, a step that takes no rune. -/
def Node.choiceRegex : List Node → Regex
  | [] => .step (.among .empty)
  | [part] => part.regex
  | part :: parts => .alt part.regex (Node.choiceRegex parts)

end

mutual

/-- How deeply a pattern nests. -/
def Node.height : Node → Nat
  | .capture body => body.height + 1
  | .star body => body.height + 1
  | .plus body => body.height + 1
  | .option body => body.height + 1
  | .counted _ _ _ body => body.height + 1
  | .sequence parts => Node.heights parts + 1
  | .choice parts => Node.heights parts + 1
  | _ => 1

/-- The greatest height of the parts. -/
def Node.heights : List Node → Nat
  | [] => 0
  | part :: parts => max part.height (Node.heights parts)

end

mutual

/-- The number of steps of a pattern with all repetitions written out. -/
def Node.weight : Node → Nat
  | .literal _ points => max 1 points.length
  | .capture body => body.weight + 2
  | .star body => body.weight + 2
  | .plus body => body.weight + 1
  | .option body => body.weight + 1
  | .counted _ 0 none body => body.weight + 2
  | .counted _ least none body => least * body.weight + 1
  | .counted _ least (some most) body => max 1 (most * body.weight + (most - least))
  | .sequence parts => max 1 (Node.weights parts)
  | .choice parts => max 1 (Node.weights parts + (parts.length - 1))
  | _ => 1

/-- The weights of the parts together. -/
def Node.weights : List Node → Nat
  | [] => 0
  | part :: parts => part.weight + Node.weights parts

end

mutual

/-- Do the counts of nested repetitions multiply to at most `limit`? -/
def Node.countsFit (limit : Nat) : Node → Bool
  | .counted _ least most body =>
    let times := most.getD least
    if most = some 0 then true
    else if limit < times then false
    else body.countsFit (if times = 0 then limit else limit / times)
  | .capture body => body.countsFit limit
  | .star body => body.countsFit limit
  | .plus body => body.countsFit limit
  | .option body => body.countsFit limit
  | .sequence parts => Node.allCountsFit limit parts
  | .choice parts => Node.allCountsFit limit parts
  | _ => true

/-- Do they in each of the parts? -/
def Node.allCountsFit (limit : Nat) : List Node → Bool
  | [] => true
  | part :: parts => part.countsFit limit && Node.allCountsFit limit parts

end

end Munch.Pattern
