import Munch.CharSet

/-!
# Regular expressions over runes

`Regex` is what patterns of both dialects come down to: single runes, conditions on a position,
sequence, choice and one kind of loop. The other operators are defined from these.

* `RuneTest.accepts` says which runes a single step takes. `any` and `notNewline` take runes that
  are no code points, too; a set never does.
* `Anchor.holds` says when a condition is true of the runes around a position.
-/

namespace Munch

/-- What one step of a pattern takes. -/
inductive RuneTest where
  | any
  | notNewline
  | among (set : CharSet)
  deriving DecidableEq, Repr, Inhabited

/-- Does the test take the rune? -/
def RuneTest.accepts : RuneTest → Rune → Bool
  | .any, _ => true
  | .notNewline, r => r != Rune.newline
  | .among set, r => set.contains r

/-- The test for a set. The sets of all code points, and of all but the newline, take runes beyond
the code points as well. -/
def RuneTest.ofSet (set : CharSet) : RuneTest :=
  if set = .all then .any else if set = .notNewline then .notNewline else .among set

/-- A condition on a position. -/
inductive Anchor where
  | lineStart
  | lineEnd
  | textStart
  | textEnd
  | wordEdge
  | noWordEdge
  deriving DecidableEq, Repr, Inhabited

/-- The runes before and after a position, `Rune.absent` where there is none. -/
structure Gap where
  before : Rune
  after : Rune
  deriving DecidableEq, Repr, Inhabited

/-- Letters, digits and the underscore of ASCII. -/
def isWord (r : Rune) : Bool :=
  (48 ≤ r && r ≤ 57) || (65 ≤ r && r ≤ 90) || r == 95 || (97 ≤ r && r ≤ 122)

/-- Is the condition true at the position? A negative rune counts as the edge of the text. -/
def Anchor.holds (g : Gap) : Anchor → Bool
  | .lineStart => g.before == Rune.newline || g.before < 0
  | .lineEnd => g.after == Rune.newline || g.after < 0
  | .textStart => g.before < 0
  | .textEnd => g.after < 0
  | .wordEdge => isWord g.before != isWord g.after
  | .noWordEdge => isWord g.before == isWord g.after

/-- Regular expressions. -/
inductive Regex where
  | empty
  | step (test : RuneTest)
  | anchor (a : Anchor)
  | seq (first second : Regex)
  | alt (left right : Regex)
  | plus (body : Regex)
  deriving DecidableEq, Repr, Inhabited

namespace Regex

/-- The body or nothing. -/
def option (body : Regex) : Regex := .alt body .empty

/-- The body any number of times. -/
def star (body : Regex) : Regex := option (.plus body)

/-- All the parts in order. -/
def sequence (parts : List Regex) : Regex := parts.foldr .seq .empty

/-- The body `n` times, then `rest`. -/
def copies (body : Regex) : Nat → Regex → Regex
  | 0, rest => rest
  | n + 1, rest => .seq body (copies body n rest)

/-- The body at most `n` times. -/
def atMost (body : Regex) : Nat → Regex
  | 0 => .empty
  | n + 1 => option (.seq body (atMost body n))

/-- The body at least `least` times, and at most `most` times if there is such a bound. -/
def counted (body : Regex) (least : Nat) : (most : Option Nat) → Regex
  | none => if least = 0 then star body else copies body (least - 1) (.plus body)
  | some most => copies body least (atMost body (most - least))

end Regex

end Munch
