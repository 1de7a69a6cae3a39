import Munch.Pattern.Regex

/-!
# Programs

A program is a list of instructions. A thread stands at an instruction; it takes a rune with a
`step`, goes on without one at a `pass` or a `split`, and at an `anchor` if the condition is true at
its position.

* `Regex.program` compiles a regular expression. `Regex.emit` writes the instructions for an
  expression in front of the place `next` that they lead to.
* `Program.reach` follows all the moves that take no rune.
-/

namespace Munch

/-- One instruction; places are positions in the program. -/
inductive Inst where
  | step (test : RuneTest) (next : Nat)
  | pass (next : Nat)
  | split (left right : Nat)
  | anchor (a : Anchor) (next : Nat)
  | accept
  | stuck
  deriving DecidableEq, Repr, Inhabited

/-- Instructions, and the place where threads start. -/
structure Program where
  code : Array Inst
  start : Nat
  deriving DecidableEq, Repr, Inhabited

/-! ## Compilation -/

/-- Adds the instructions for an expression that lead to the place `next`. Returns the place to
enter them. -/
def Regex.emit : Regex → (next : Nat) → Array Inst → Nat × Array Inst
  | .empty, next, code => (code.size, code.push (.pass next))
  | .step test, next, code => (code.size, code.push (.step test next))
  | .anchor a, next, code => (code.size, code.push (.anchor a next))
  | .seq first second, next, code =>
    let (middle, code) := second.emit next code
    first.emit middle code
  | .alt left right, next, code =>
    let (l, code) := left.emit next code
    let (r, code) := right.emit next code
    (code.size, code.push (.split l r))
  | .plus body, next, code =>
    let loop := code.size
    let (entry, code) := body.emit loop (code.push .stuck)
    (entry, code.setIfInBounds loop (.split entry next))

/-- The program of an expression; its first instruction accepts. -/
def Regex.program (r : Regex) : Program :=
  let (start, code) := r.emit 0 #[.accept]
  ⟨code, start⟩

/-! ## Threads -/

namespace Program

/-- The places that a thread can go on to without a rune. -/
def moves (g : Gap) : Inst → List Nat
  | .pass next => [next]
  | .split left right => [left, right]
  | .anchor a next => if a.holds g then [next] else []
  | _ => []

/-- Visits the places of `todo` and all places they lead to without a rune. `seen` are the places
visited, the latest first; each is visited once, so `fuel` steps are enough. -/
def visit (p : Program) (g : Gap) : (fuel : Nat) → (todo seen : List Nat) → List Nat
  | 0, _, seen => seen
  | _ + 1, [], seen => seen
  | fuel + 1, pc :: todo, seen =>
    if seen.contains pc then visit p g fuel todo seen
    else
      match p.code[pc]? with
      | none => visit p g fuel todo seen
      | some inst => visit p g fuel (moves g inst ++ todo) (pc :: seen)

/-- All places that threads at `places` can get to without a rune. -/
def reach (p : Program) (g : Gap) (places : List Nat) : List Nat :=
  visit p g (places.length + 2 * p.code.size + 1) places []

/-- The threads before the first rune. -/
def begin (p : Program) (g : Gap) : List Nat := p.reach g [p.start]

/-- Where a thread goes with a rune. -/
def take (p : Program) (r : Rune) (pc : Nat) : Option Nat :=
  match p.code[pc]? with
  | some (.step test next) => if test.accepts r then some next else none
  | _ => none

/-- The threads after the rune `r`, at the position `g`. -/
def advance (p : Program) (threads : List Nat) (r : Rune) (g : Gap) : List Nat :=
  p.reach g (threads.filterMap (p.take r))

/-- Has a thread accepted? -/
def accepts (p : Program) (threads : List Nat) : Bool :=
  threads.any fun pc => p.code[pc]? == some .accept

/-- Is a thread waiting for a rune? -/
def waits (p : Program) (threads : List Nat) : Bool :=
  threads.any fun pc => match p.code[pc]? with
    | some (.step _ _) => true
    | _ => false

end Program

end Munch
