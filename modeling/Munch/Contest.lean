import Munch.Program.Queue
import Munch.Rule.Table
import Munch.Window

/-!
# The longest match

The programs of all rules of a state run side by side over the runes at the cursor of a window. The
rule that accepts last wins, and of rules that accept at the same place the first one. A match of no
runes does not count.

The window is read for as long as some thread waits for a rune, one rune further than the threads
have come. The rune `Rune.absent` ends the contest like the end of the input.

* `Machine.run` runs the rules of a state. A machine is used again and again; its queues keep what
  the last run left in them.
* `RuneMatcher` keeps a machine for every state that was matched, for as long as the rules stay as
  they are.
-/

namespace Munch

/-- A match: which rule, and how many runes. -/
structure Hit where
  rule : Nat
  length : Nat
  deriving DecidableEq, Repr, Inhabited

/-- The best match when `winner` is the first rule to accept behind `length` runes: that one, else
the best one before. -/
def better (winner : Option Nat) (length : Nat) (best : Option Hit) : Option Hit :=
  match winner with
  | some rule => some ⟨rule, length⟩
  | none => best

/-! ## Machines -/

/-- A rule with its threads, and a queue for those behind the next rune. -/
structure Track (α : Type) where
  rule : Rule α
  threads : Queue rule.program.code.size
  spare : Queue rule.program.code.size
  deriving Repr

namespace Track

variable {α : Type}

/-- A rule with empty queues. -/
def new (r : Rule α) : Track α := ⟨r, .new _, .new _⟩

instance : Inhabited (Track α) := ⟨new default⟩

/-- The rule before the first rune, at the position `g`. -/
def start (g : Gap) (t : Track α) : Track α :=
  { t with threads := t.rule.program.gather g [t.rule.program.start] t.threads }

/-- The rule after the rune `r`, at the position `g`. The queues change their places. -/
def advance (r : Rune) (g : Gap) (t : Track α) : Track α :=
  let places := t.threads.dense.toList.filterMap (t.rule.program.take r)
  { t with threads := t.rule.program.gather g places t.spare, spare := t.threads }

/-- Has the rule accepted? -/
def accepts (t : Track α) : Bool := t.rule.program.accepts t.threads.dense.toList

/-- Does the rule wait for a rune? -/
def waits (t : Track α) : Bool := t.rule.program.waits t.threads.dense.toList

end Track

/-- The rules of a state, by priority, with their threads. -/
structure Machine (α : Type) where
  tracks : List (Track α)
  deriving Repr, Inhabited

namespace Machine

variable {α : Type}

/-- A machine for rules. -/
def new (rules : List (Rule α)) : Machine α := ⟨rules.map .new⟩

/-- The rules of a machine. -/
def rules (m : Machine α) : List (Rule α) := m.tracks.map (·.rule)

/-- Runs the rules. `rune` is the rune at the position reached, behind `length` runes; `passed` are
the runes passed, the latest first, and the window stands at `rune`. -/
def race : (fuel length : Nat) → (best : Option Hit) → List (Track α) → (rune : Rune) →
    (passed : List Rune) → Window → Option Hit × Window × Machine α
  | 0, _, best, tracks, _, passed, w => (best, w.rewind passed, ⟨tracks⟩)
  | fuel + 1, length, best, tracks, rune, passed, w =>
    if tracks.any Track.waits && rune != Rune.absent then
      let (following, w) := w.advance.peek
      let following := following.getD Rune.absent
      let tracks := tracks.map (Track.advance rune ⟨rune, following⟩)
      race fuel (length + 1) (better (tracks.findIdx? Track.accepts) (length + 1) best)
        tracks following (rune :: passed) w
    else (best, w.rewind passed, ⟨tracks⟩)

/-- The longest match at the cursor of a window, the window with what was read, and the machine as
the run left it. -/
def run (m : Machine α) (w : Window) : Option Hit × Window × Machine α :=
  let prev := w.prev
  let (rune, w) := w.peek
  let rune := rune.getD Rune.absent
  race (w.total + 1) 0 none (m.tracks.map (Track.start ⟨prev, rune⟩)) rune [] w

end Machine

/-! ## Machines by state -/

/-- Machines by state, made from the rules of the table with the number `version`. -/
structure RuneMatcher (α : Type) where
  version : Option Nat := none
  machines : List (Text × Machine α) := []
  deriving Repr, Inhabited

namespace RuneMatcher

variable {α : Type}

/-- The matcher without machines, if they are for a table that has changed since. -/
def follow (m : RuneMatcher α) (t : RuleTable α) : RuneMatcher α :=
  if m.version = some t.version then m else ⟨some t.version, []⟩

/-- The machine for a state; it is made if there is none. -/
def machineFor (m : RuneMatcher α) (t : RuleTable α) (state : Text) : Machine α :=
  ((m.follow t).machines.lookup state).getD (.new (t.rulesFor state))

/-- The longest match of the rules of a state: the rule, and the number of runes. -/
def longest (m : RuneMatcher α) (t : RuleTable α) (state : Text) (w : Window) :
    Option (Rule α × Nat) × Window × RuneMatcher α :=
  let machine := m.machineFor t state
  let (hit, w, after) := machine.run w
  let m := m.follow t
  (hit.bind fun h => machine.rules[h.rule]?.map (·, h.length), w,
    { m with machines := RuleTable.update state after m.machines })

end RuneMatcher

end Munch
