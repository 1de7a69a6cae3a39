import Mathlib.Data.List.Sort
import Munch.Proofs.Declared

/-!
# The order of the open states

A rule without a list of states is for the inclusive ones, the open states. All states are listed in
the order in which they were declared first. The open ones are listed by how long they have been
open: a state that was made exclusive and is opened again comes last, behind states that were
declared later.

* `States.openInOrder`: the open states in the order of all states.
* `Registry.OpenFrom`, `Registry.OpenLonger`: since when a state has been open, read off the calls
  of a history.
* `Registry.NoneReturns`: no state is moved from the exclusive states to the inclusive ones.

Results:
* `Registry.pairwise_inclusive`: of two open states the one that has been open for longer comes
  first.
* `Registry.inclusive_of_noneReturns`: if no state returns, the open states are in the order of all
  states.
* **`open_states_longest_first`**: which states are open, their order, and when it is that of all
  states.
-/

namespace Munch

open Lexer

variable {α η : Type}

/-- The open states in the order in which they were declared first. -/
def States.openInOrder (s : States) : List Text := s.all.filter fun state => !s.isExclusive state

namespace Registry

/-! ## Since when a state is open -/

/-- The state is open after the first `i` calls, and stays so. -/
def OpenFrom (settings : List (Setting α η)) (i : Nat) (state : Text) : Prop :=
  ∀ k, i ≤ k → classOf (settings.take k) state = some .inclusive

/-- At some time one state was open for good, and the other one was not open. -/
def OpenLonger (settings : List (Setting α η)) (state other : Text) : Prop :=
  ∃ i ≤ settings.length, OpenFrom settings i state ∧
    classOf (settings.take i) other ≠ some .inclusive

/-- No call moves a state from the exclusive states to the inclusive ones. -/
def NoneReturns (settings : List (Setting α η)) : Prop :=
  ∀ (i : Nat) (state : Text), settings[i]? = some (.declare state .inclusive) →
    classOf (settings.take i) state ≠ some .exclusive

variable {past : List (Setting α η)} {c : Setting α η} {state other : Text} {i : Nat}

theorem OpenFrom.concat (h : OpenFrom past i state)
    (hopen : classOf (past ++ [c]) state = some .inclusive) : OpenFrom (past ++ [c]) i state := by
  intro k hk
  by_cases hle : k ≤ past.length
  · rw [List.take_append_of_le_length hle]
    exact h k hk
  · rw [List.take_of_length_le (by simp; omega)]
    exact hopen

theorem OpenLonger.concat (h : OpenLonger past state other)
    (hopen : classOf (past ++ [c]) state = some .inclusive) :
    OpenLonger (past ++ [c]) state other := by
  obtain ⟨i, hi, hfrom, hnot⟩ := h
  refine ⟨i, by simp; omega, hfrom.concat hopen, ?_⟩
  rwa [List.take_append_of_le_length hi]

/-- A state that is open stays so for longer than one that is opened now. -/
theorem openLonger_opened (hbefore : classOf past state = some .inclusive)
    (hopen : classOf (past ++ [c]) state = some .inclusive)
    (hnot : classOf past other ≠ some .inclusive) : OpenLonger (past ++ [c]) state other := by
  have hfrom : OpenFrom past past.length state := fun k hk => by
    rw [List.take_of_length_le hk]
    exact hbefore
  refine OpenLonger.concat ⟨past.length, Nat.le_refl _, hfrom, ?_⟩ hopen
  rwa [List.take_length]

theorem OpenLonger.asymm {settings : List (Setting α η)} (h : OpenLonger settings state other) :
    ¬OpenLonger settings other state := by
  rintro ⟨j, -, hfrom', hnot'⟩
  obtain ⟨i, -, hfrom, hnot⟩ := h
  obtain hle | hle := Nat.le_total i j
  · exact hnot' (hfrom j hle)
  · exact hnot (hfrom' i hle)

instance (settings : List (Setting α η)) : Std.Irrefl (OpenLonger settings) :=
  ⟨fun _ h => h.asymm h⟩

instance (settings : List (Setting α η)) : Std.Antisymm (OpenLonger settings) :=
  ⟨fun _ _ h h' => absurd h' h.asymm⟩

/-! ## The order of the open states -/

/-- A state is open iff it was declared an inclusive one last. -/
theorem mem_inclusive (settings : List (Setting α η)) (state : Text) :
    state ∈ (configured settings).states.inclusive ↔ classOf settings state = some .inclusive :=
  (agrees_configured settings).states.ofClass .inclusive state

theorem mem_stateNames (settings : List (Setting α η)) (state : Text) :
    state ∈ stateNames settings ↔ (classOf settings state).isSome := by
  rw [← all_configured, (agrees_configured settings).states.all]

/-- A call opens a state, last of all, or leaves the open states in their order. -/
theorem inclusive_apply (lx : Lexer α η) (c : Setting α η) :
    (c.apply lx).states.inclusive.Sublist lx.states.inclusive ∨
      ∃ name, name ∉ lx.states.inclusive ∧
        (c.apply lx).states.inclusive = lx.states.inclusive ++ [name] := by
  rw [(c.stock_apply lx).1]
  cases c with
  | declare name class' =>
    simp only
    cases hdeclared : lx.states.declare? name class' with
    | none => exact .inl (List.Sublist.refl _)
    | some t =>
      obtain ⟨hnot, -, hclass, hother⟩ := States.declare?_some hdeclared
      cases class' with
      | inclusive => exact .inr ⟨name, hnot, hclass⟩
      | exclusive =>
        rw [Option.getD_some, show t.inclusive = lx.states.inclusive.erase name from hother]
        exact .inl List.erase_sublist
  | _ => exact .inl (List.Sublist.refl _)

/-- **The state that has been open for longer comes first.** -/
theorem pairwise_inclusive (settings : List (Setting α η)) :
    (configured settings).states.inclusive.Pairwise (OpenLonger settings) := by
  induction settings using List.reverseRecOn with
  | nil => exact List.pairwise_singleton _ _
  | append_singleton past c ih =>
    have hopen := mem_inclusive (past ++ [c])
    -- what was open before and still is has kept its place
    have hkept {states : List Text} (hold : states.Sublist (configured past).states.inclusive)
        (hnew : ∀ state ∈ states, state ∈ (configured (past ++ [c])).states.inclusive) :
        states.Pairwise (OpenLonger (past ++ [c])) :=
      (ih.sublist hold).imp_of_mem fun hstate _ hlonger =>
        hlonger.concat ((hopen _).mp (hnew _ hstate))
    rw [configured_concat] at hopen hkept ⊢
    obtain hless | ⟨name, hnot, hmore⟩ := inclusive_apply (configured past) c
    · exact hkept hless fun _ => id
    · rw [hmore] at hopen hkept ⊢
      refine List.pairwise_append.mpr ⟨hkept (List.Sublist.refl _) fun _ => List.mem_append_left _,
        List.pairwise_singleton _ _, fun state hstate other hother => ?_⟩
      obtain rfl := List.mem_singleton.mp hother
      exact openLonger_opened ((mem_inclusive past state).mp hstate)
        ((hopen state).mp (List.mem_append_left _ hstate)) fun h =>
          hnot ((mem_inclusive past other).mpr h)

/-! ## States that do not return -/

/-- Declaring a state as an inclusive one opens it, unless it is open. -/
theorem inclusive_opened (s : States) (name : Text) :
    ((s.declare? name .inclusive).getD s).inclusive = States.add name s.inclusive := by
  rw [States.declare?]
  by_cases hin : s.inclusive.contains name = true
  · rw [if_pos hin, States.add, if_pos hin]
    rfl
  · rw [if_neg hin]
    show s.inclusive ++ [name] = States.add name s.inclusive
    rw [States.add, if_neg hin]

/-- Declaring a state as an exclusive one closes it. -/
theorem inclusive_closed {s : States} {name : Text} (h : name ∈ s.exclusive → name ∉ s.inclusive) :
    ((s.declare? name .exclusive).getD s).inclusive = s.inclusive.erase name := by
  rw [States.declare?]
  split
  next hin => exact (List.erase_of_not_mem (h (List.contains_iff_mem.mp hin))).symm
  · rfl

/-- Opening a name that was not closed before adds it to the open ones. -/
theorem filter_opened {class? : Text → Option StateClass} {names : List Text} {name : Text}
    (h : name ∈ names → class? name = some .inclusive) :
    ((States.add name names).filter fun state =>
        (if name = state then some .inclusive else class? state) = some StateClass.inclusive) =
      States.add name (names.filter fun state => class? state = some .inclusive) := by
  by_cases hin : name ∈ names
  · have hopen : name ∈ names.filter fun state => class? state = some .inclusive :=
      List.mem_filter.mpr ⟨hin, decide_eq_true (h hin)⟩
    rw [States.add, if_pos (List.contains_iff_mem.mpr hin), States.add,
      if_pos (List.contains_iff_mem.mpr hopen)]
    refine List.filter_congr fun state _ => ?_
    split
    next heq => rw [← heq, h hin]
    · rfl
  · have hnot : name ∉ names.filter fun state => class? state = some .inclusive :=
      fun hopen => hin (List.mem_filter.mp hopen).1
    rw [States.add, if_neg (by simpa using hin), States.add, if_neg (by simpa using hnot),
      List.filter_append]
    refine congrArg₂ (· ++ ·) (List.filter_congr fun state hstate => ?_) (by simp)
    rw [if_neg]
    rintro rfl
    exact hin hstate

/-- Closing a name takes it from the open ones. -/
theorem filter_closed (class? : Text → Option StateClass) (names : List Text) (name : Text) :
    ((States.add name names).filter fun state =>
        (if name = state then some .exclusive else class? state) = some StateClass.inclusive) =
      (names.filter fun state => class? state = some .inclusive).filter (· != name) := by
  have hmore : ((States.add name names).filter fun state =>
        (if name = state then some .exclusive else class? state) = some StateClass.inclusive) =
      names.filter fun state =>
        (if name = state then some .exclusive else class? state) = some StateClass.inclusive := by
    rw [States.add]
    split
    · rfl
    · rw [List.filter_append]
      simp
  rw [hmore, List.filter_filter]
  refine List.filter_congr fun state _ => ?_
  by_cases heq : name = state
  · simp [heq]
  · simp [heq, Ne.symm heq]

theorem openInOrder_configured (settings : List (Setting α η)) :
    (configured settings).states.openInOrder =
      (stateNames settings).filter fun state => classOf settings state = some .inclusive := by
  rw [States.openInOrder, all_configured]
  refine List.filter_congr fun state hstate => ?_
  obtain ⟨c, hc⟩ := Option.isSome_iff_exists.mp ((mem_stateNames settings state).mp hstate)
  have hdeclared : (configured settings).states.isDeclared state = true := by
    rw [States.isDeclared, all_configured]
    exact List.contains_iff_mem.mpr hstate
  have hexclusive : (configured settings).states.exclusive.contains state = true ↔
      c = .exclusive := by
    rw [List.contains_iff_mem, ← Option.some_inj, ← hc]
    exact (agrees_configured settings).states.ofClass .exclusive state
  rw [States.isExclusive, hdeclared, Bool.true_and, hc]
  cases c with
  | inclusive => simpa using hexclusive
  | exclusive => simpa using hexclusive

theorem NoneReturns.before (h : NoneReturns (past ++ [c])) : NoneReturns past := by
  intro i state hcall
  have hi : i < past.length := (List.getElem?_eq_some_iff.mp hcall).1
  have hlater := h i state (by rw [List.getElem?_append_left hi, hcall])
  rwa [List.take_append_of_le_length (Nat.le_of_lt hi)] at hlater

/-- If no state returns, a state that is opened was open before, or not declared. -/
theorem NoneReturns.open_before {name : Text} (h : NoneReturns (past ++ [.declare name .inclusive]))
    (hin : name ∈ stateNames past) : classOf past name = some .inclusive := by
  obtain ⟨class', hclass⟩ := Option.isSome_iff_exists.mp ((mem_stateNames past name).mp hin)
  have hnot : classOf past name ≠ some .exclusive := by
    have hlater := h past.length name (by simp)
    rwa [List.take_append_of_le_length (Nat.le_refl _), List.take_length] at hlater
  cases class' with
  | inclusive => exact hclass
  | exclusive => exact absurd hclass hnot

/-- **If no state returns**, the open states are in the order of all states. -/
theorem inclusive_of_noneReturns {settings : List (Setting α η)} (h : NoneReturns settings) :
    (configured settings).states.inclusive = (configured settings).states.openInOrder := by
  rw [openInOrder_configured]
  induction settings using List.reverseRecOn with
  | nil => rfl
  | append_singleton past c ih =>
    have hclassed := (agrees_configured past).states
    rw [configured_concat, (c.stock_apply _).1, stateNames_concat]
    simp only [classOf_concat]
    cases c with
    | declare name class' =>
      have hlast (state : Text) : ((Setting.declare name class' : Setting α η).classFor? state).or
          (classOf past state) = if name = state then some class' else classOf past state := by
        rw [Setting.classFor?]
        split <;> rfl
      simp only [hlast]
      rw [Setting.state?, Option.elim_some]
      cases class' with
      | inclusive =>
        exact (inclusive_opened _ name).trans
          ((congrArg _ (ih h.before)).trans (filter_opened fun hin => h.open_before hin).symm)
      | exclusive =>
        have hapart : name ∈ (configured past).states.exclusive →
            name ∉ (configured past).states.inclusive := by
          intro hexclusive hinclusive
          have hclass := (hclassed.ofClass .exclusive name).mp hexclusive
          rw [(mem_inclusive past name).mp hinclusive] at hclass
          cases hclass
        have hnodup : (configured past).states.inclusive.Nodup := hclassed.nodup .inclusive
        rw [filter_closed, ← ih h.before, ← hnodup.erase_eq_filter]
        exact inclusive_closed hapart
    | _ => exact ih h.before

end Registry

open Registry

/-- **The open states are listed by how long they have been open.** Whatever has happened to a
lexer, a rule without a list of states is for the states that are declared and not exclusive, each
of them once. Of two of these the one that has been open for longer comes first, which fixes their
order. It is the order of all states iff of two open states the one that was declared first is the
one that has been open for longer, and this is so if no exclusive state has ever been made
inclusive. -/
theorem open_states_longest_first {settings : List (Setting α η)} {lx : Lexer α η}
    (h : History settings lx) :
    lx.targets .unnamed = .ok lx.states.inclusive ∧
      (∀ state, state ∈ lx.states.inclusive ↔ state ∈ lx.states.openInOrder) ∧
      lx.states.inclusive.Pairwise (OpenLonger settings) ∧
      (lx.states.inclusive = lx.states.openInOrder ↔
        lx.states.openInOrder.Pairwise (OpenLonger settings)) ∧
      (NoneReturns settings → lx.states.inclusive = lx.states.openInOrder) := by
  have hmem (state : Text) : state ∈ lx.states.inclusive ↔ state ∈ lx.states.openInOrder := by
    rw [h.states_eq, openInOrder_configured, List.mem_filter, decide_eq_true_iff, mem_inclusive,
      mem_stateNames]
    refine ⟨fun hopen => ⟨?_, hopen⟩, And.right⟩
    rw [hopen]
    rfl
  have hlonger : lx.states.inclusive.Pairwise (OpenLonger settings) :=
    h.states_eq ▸ pairwise_inclusive settings
  refine ⟨rfl, hmem, hlonger,
    ⟨fun heq => heq ▸ hlonger, fun horder => hlonger.eq_of_mem_iff horder hmem⟩, ?_⟩
  rw [h.states_eq]
  exact inclusive_of_noneReturns

/-- A state that is made exclusive and opened again, and one that is declared in between. -/
def returning : List (Setting Nat Unit) :=
  [.declare "A" .exclusive, .declare "B" .inclusive, .declare "A" .inclusive]

/-- A state that is opened, and closed again behind others. -/
def closing : List (Setting Nat Unit) :=
  [.declare "A" .inclusive, .declare "B" .inclusive, .declare "A" .exclusive]

theorem open_states_longest_first_returning :
    ((configured returning).states.inclusive = [States.initial, "B", "A"] ∧
      (configured returning).states.inclusive.Pairwise (OpenLonger returning) ∧
      ¬(configured returning).states.openInOrder.Pairwise (OpenLonger returning)) ∧
    NoneReturns closing ∧ (configured closing).states.all = [States.initial, "A", "B"] ∧
      (configured closing).states.inclusive = (configured closing).states.openInOrder := by
  obtain ⟨-, -, hlonger, horder, -⟩ := open_states_longest_first (History.configured returning)
  obtain ⟨-, -, -, -, hnone⟩ := open_states_longest_first (History.configured closing)
  have hclosing : NoneReturns closing := by
    intro i state hcall
    match i with
    | 0 => cases hcall; decide
    | 1 => cases hcall; decide
    | 2 => cases hcall
    | i + 3 => cases hcall
  refine ⟨⟨by decide, hlonger, fun h => ?_⟩, hclosing, by decide, hnone hclosing⟩
  have heq := horder.mpr h
  revert heq
  decide

/-- A state that was opened again is behind one that was declared after it. -/
theorem open_states_out_of_order :
    (configured returning).states.all = [States.initial, "A", "B"] ∧
      (configured returning).targets .unnamed = .ok [States.initial, "B", "A"] ∧
      (configured returning).states.openInOrder = [States.initial, "A", "B"] ∧
      (configured returning).states.inclusive ≠ (configured returning).states.openInOrder := by
  decide

end Munch
