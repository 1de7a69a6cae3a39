import Munch.Program.Basic

/-!
# Rules by state

A rule has a pattern, in the two dialects, an action and a program. Each state has its rules in the
order in which their patterns were first registered for it, and may have a default action.

An action of type `α` is data; what it does is up to whoever runs the lexer. A rule without an
action drops the text it matches.
-/

namespace Munch

/-- A rule. -/
structure Rule (α : Type) where
  pattern : Text
  bytePattern : Text
  action : Option α
  program : Program
  deriving Repr, Inhabited

/-- The rules and default actions of all states. -/
structure RuleTable (α : Type) where
  rules : List (Text × List (Rule α)) := []
  defaults : List (Text × Option α) := []
  /-- the number of changes so far -/
  version : Nat := 0
  deriving Repr, Inhabited

namespace RuleTable

variable {α : Type}

/-- The value under a key, replaced or added at the end. -/
def update {β : Type} (key : Text) (value : β) : List (Text × β) → List (Text × β)
  | [] => [(key, value)]
  | (k, v) :: rest => if k = key then (key, value) :: rest else (k, v) :: update key value rest

theorem lookup_update {β : Type} (key k : Text) (value : β) (l : List (Text × β)) :
    (update key value l).lookup k = if k = key then some value else l.lookup k := by
  induction l with
  | nil =>
    rw [update, List.lookup_cons]
    by_cases h : k = key
    · simp [h]
    · simp [h, beq_eq_false_iff_ne.mpr h]
  | cons entry rest ih =>
    obtain ⟨k', v⟩ := entry
    by_cases h' : k' = key
    · subst h'
      by_cases h : k = k'
      · simp [update, h]
      · simp [update, List.lookup_cons, h, beq_eq_false_iff_ne.mpr h]
    · by_cases h : k = k'
      · subst h
        simp [update, h']
      · simp [update, List.lookup_cons, h', beq_eq_false_iff_ne.mpr h, ih]

/-- The rules of a state, by priority. -/
def rulesFor (t : RuleTable α) (state : Text) : List (Rule α) := (t.rules.lookup state).getD []

/-- The default action of a state, if it has one. -/
def defaultFor (t : RuleTable α) (state : Text) : Option (Option α) := t.defaults.lookup state

/-- The rules with one more; it takes the place of a rule with the same pattern. -/
def place (r : Rule α) : List (Rule α) → List (Rule α)
  | [] => [r]
  | s :: rest => if s.pattern = r.pattern then r :: rest else s :: place r rest

/-- Has the state a rule with this pattern? -/
def has (t : RuleTable α) (state pattern : Text) : Bool :=
  (t.rulesFor state).any (·.pattern == pattern)

/-- The table with a rule for a state. -/
def put (t : RuleTable α) (state : Text) (r : Rule α) : RuleTable α :=
  { t with rules := update state (place r (t.rulesFor state)) t.rules, version := t.version + 1 }

/-- The table with a default action for a state. -/
def putDefault (t : RuleTable α) (state : Text) (action : Option α) : RuleTable α :=
  { t with defaults := update state action t.defaults, version := t.version + 1 }

end RuleTable

end Munch
