import Mathlib.Data.List.Nodup
import Mathlib.Data.Fintype.Card
import Mathlib.Logic.Relation
import Munch.Program.Queue

/-!
# The places a thread gets to without a rune

`Program.visit` walks through a program with a list of places still to visit. Its fuel is enough
because every place is visited once and leads to at most two others.

Results:
* `mem_reach`: the places that `Program.reach` finds are those that the moves of the program lead
  to.
* `mem_gather`: a queue, whatever was left in it, gets the same places.
-/

namespace Munch.Program

variable {p : Program} {g : Gap}

/-- The instruction at `a` lets a thread go on to `b` without a rune. -/
def Move (p : Program) (g : Gap) (a b : Nat) : Prop :=
  ∃ inst, p.code[a]? = some inst ∧ b ∈ moves g inst

/-- Moves without a rune lead from `a` to the instruction `b`. -/
def Leads (p : Program) (g : Gap) (a b : Nat) : Prop :=
  Relation.ReflTransGen (p.Move g) a b ∧ b < p.code.size

theorem moves_length_le (g : Gap) (inst : Inst) : (moves g inst).length ≤ 2 := by
  cases inst with
  | anchor a next =>
    simp only [moves]
    split <;> simp
  | _ => simp [moves]

/-! ## What is visited can be reached -/

theorem visit_sound (fuel : Nat) (todo seen : List Nat) {b : Nat}
    (h : b ∈ visit p g fuel todo seen) : b ∈ seen ∨ ∃ a ∈ todo, p.Leads g a b := by
  induction fuel generalizing todo seen with
  | zero => exact .inl h
  | succ fuel ih =>
    cases todo with
    | nil => exact .inl h
    | cons pc todo =>
      rw [visit] at h
      split at h
      · obtain hs | ⟨a, ha, hab⟩ := ih todo seen h
        · exact .inl hs
        · exact .inr ⟨a, List.mem_cons_of_mem _ ha, hab⟩
      · split at h
        · obtain hs | ⟨a, ha, hab⟩ := ih todo seen h
          · exact .inl hs
          · exact .inr ⟨a, List.mem_cons_of_mem _ ha, hab⟩
        next inst hinst =>
          have hlt : pc < p.code.size := (Array.getElem?_eq_some_iff.mp hinst).1
          obtain hs | ⟨a, ha, hab⟩ := ih (moves g inst ++ todo) (pc :: seen) h
          · obtain rfl | hs := List.mem_cons.mp hs
            · exact .inr ⟨b, List.mem_cons_self, .refl, hlt⟩
            · exact .inl hs
          · obtain ha | ha := List.mem_append.mp ha
            · exact .inr ⟨pc, List.mem_cons_self, .head ⟨inst, hinst, ha⟩ hab.1, hab.2⟩
            · exact .inr ⟨a, List.mem_cons_of_mem _ ha, hab⟩

/-! ## What can be reached is visited -/

/-- The state of a visit: places seen are instructions, each listed once, and what they lead to is
seen or still to be visited. -/
structure Visiting (p : Program) (g : Gap) (todo seen : List Nat) : Prop where
  nodup : seen.Nodup
  inside : ∀ a ∈ seen, a < p.code.size
  closed : ∀ a ∈ seen, ∀ b, p.Move g a b → b < p.code.size → b ∈ seen ∨ b ∈ todo

theorem Visiting.length_le {todo seen : List Nat} (h : Visiting p g todo seen) :
    seen.length ≤ p.code.size := by
  have hsub : seen ⊆ List.range p.code.size := fun a ha => List.mem_range.mpr (h.inside a ha)
  simpa using (List.subperm_of_subset h.nodup hsub).length_le

theorem Visiting.skip {todo seen : List Nat} {pc : Nat} (h : Visiting p g (pc :: todo) seen)
    (hpc : pc < p.code.size → pc ∈ seen) : Visiting p g todo seen := by
  refine ⟨h.nodup, h.inside, fun a ha b hab hb => ?_⟩
  obtain hs | ht := h.closed a ha b hab hb
  · exact .inl hs
  · obtain rfl | ht := List.mem_cons.mp ht
    · exact .inl (hpc hb)
    · exact .inr ht

theorem Visiting.insert {todo seen : List Nat} {pc : Nat} {inst : Inst}
    (h : Visiting p g (pc :: todo) seen) (hnew : pc ∉ seen) (hinst : p.code[pc]? = some inst) :
    Visiting p g (moves g inst ++ todo) (pc :: seen) := by
  refine ⟨List.nodup_cons.mpr ⟨hnew, h.nodup⟩, fun a ha => ?_, fun a ha b hab hb => ?_⟩
  · obtain rfl | ha := List.mem_cons.mp ha
    · exact (Array.getElem?_eq_some_iff.mp hinst).1
    · exact h.inside a ha
  · obtain rfl | ha := List.mem_cons.mp ha
    · obtain ⟨inst', hinst', hb'⟩ := hab
      cases hinst.symm.trans hinst'
      exact .inr (List.mem_append_left _ hb')
    · obtain hs | ht := h.closed a ha b hab hb
      · exact .inl (List.mem_cons_of_mem _ hs)
      · obtain rfl | ht := List.mem_cons.mp ht
        · exact .inl List.mem_cons_self
        · exact .inr (List.mem_append_right _ ht)

/-- With enough fuel a visit ends with nothing left to do: it has seen what it was given, and all
that this leads to. The fuel pays for the places to visit, and for two more with each place not seen
yet. -/
theorem visit_complete (fuel : Nat) (todo seen : List Nat) (h : Visiting p g todo seen)
    (hfuel : todo.length + 2 * (p.code.size - seen.length) < fuel) :
    Visiting p g [] (visit p g fuel todo seen) ∧ seen ⊆ visit p g fuel todo seen ∧
      ∀ a ∈ todo, a < p.code.size → a ∈ visit p g fuel todo seen := by
  induction fuel generalizing todo seen with
  | zero => exact absurd hfuel (Nat.not_lt_zero _)
  | succ fuel ih =>
    cases todo with
    | nil => exact ⟨h, fun _ ha => ha, fun a ha => absurd ha List.not_mem_nil⟩
    | cons pc todo =>
      rw [visit]
      rw [List.length_cons] at hfuel
      split
      next hc =>
        have hpc : pc ∈ seen := by simpa using hc
        obtain ⟨h1, h2, h3⟩ := ih todo seen (h.skip fun _ => hpc) (by omega)
        refine ⟨h1, h2, fun a ha hlt => ?_⟩
        obtain rfl | ha := List.mem_cons.mp ha
        · exact h2 hpc
        · exact h3 a ha hlt
      next hc =>
        have hnew : pc ∉ seen := by simpa using hc
        split
        next hnone =>
          have hout : ¬ pc < p.code.size := by simpa using hnone
          obtain ⟨h1, h2, h3⟩ := ih todo seen (h.skip fun hlt => absurd hlt hout) (by omega)
          refine ⟨h1, h2, fun a ha hlt => ?_⟩
          obtain rfl | ha := List.mem_cons.mp ha
          · exact absurd hlt hout
          · exact h3 a ha hlt
        next inst hinst =>
          have hins := h.insert hnew hinst
          have hlen := hins.length_le
          have hmoves := moves_length_le g inst
          rw [List.length_cons] at hlen
          obtain ⟨h1, h2, h3⟩ := ih (moves g inst ++ todo) (pc :: seen) hins
            (by rw [List.length_append, List.length_cons]; omega)
          refine ⟨h1, fun a ha => h2 (List.mem_cons_of_mem _ ha), fun a ha hlt => ?_⟩
          obtain rfl | ha := List.mem_cons.mp ha
          · exact h2 List.mem_cons_self
          · exact h3 a (List.mem_append_right _ ha) hlt

/-- A set of places that is closed under moves holds all that one of them leads to. -/
theorem Visiting.leads {seen : List Nat} (h : Visiting p g [] seen) {a b : Nat} (ha : a ∈ seen)
    (hab : p.Leads g a b) : b ∈ seen := by
  obtain ⟨hpath, hb⟩ := hab
  induction hpath with
  | refl => exact ha
  | @tail c d hpath hmove ih =>
    obtain ⟨inst, hinst, hd⟩ := hmove
    have hc : c ∈ seen := ih (Array.getElem?_eq_some_iff.mp hinst).1
    exact (h.closed c hc d ⟨inst, hinst, hd⟩ hb).resolve_right List.not_mem_nil

/-- A place that leads to an instruction is an instruction itself. -/
theorem Leads.inside {a b : Nat} (h : p.Leads g a b) : a < p.code.size := by
  obtain ⟨hpath, hb⟩ := h
  obtain rfl | ⟨c, ⟨inst, hinst, -⟩, -⟩ := hpath.cases_head
  · exact hb
  · exact (Array.getElem?_eq_some_iff.mp hinst).1

/-- **`reach` finds exactly what moves without a rune lead to.** -/
theorem mem_reach {places : List Nat} {b : Nat} :
    b ∈ p.reach g places ↔ ∃ a ∈ places, p.Leads g a b := by
  constructor
  · intro h
    exact (visit_sound _ _ _ h).resolve_left List.not_mem_nil
  · rintro ⟨a, ha, hab⟩
    obtain ⟨h1, -, h3⟩ := visit_complete (p := p) (g := g) _ places []
      ⟨List.nodup_nil, fun _ h => absurd h List.not_mem_nil, fun _ h => absurd h List.not_mem_nil⟩
      (show _ < places.length + 2 * p.code.size + 1 by simp)
    exact h1.leads (h3 a ha hab.inside) hab

/-! ## Queues -/

/-- A queue takes in places as a visit does, in the opposite order. -/
theorem spread_dense (fuel : Nat) (todo : List Nat) (q : Queue p.code.size) :
    (p.spread g fuel todo q).dense.toList =
      (visit p g fuel todo q.dense.toList.reverse).reverse := by
  induction fuel generalizing todo q with
  | zero => simp [spread, visit]
  | succ fuel ih =>
    cases todo with
    | nil => simp [spread, visit]
    | cons pc todo =>
      have hmem : q.contains pc = q.dense.toList.reverse.contains pc := by
        rw [Bool.eq_iff_iff, Queue.contains_iff]
        simp
      rw [spread, visit, ← hmem]
      by_cases hc : q.contains pc = false
      · rw [dif_pos hc, if_neg (by rw [hc]; exact Bool.false_ne_true)]
        by_cases hlt : pc < p.code.size
        · rw [dif_pos hlt, Array.getElem?_eq_getElem hlt, ih]
          simp [Queue.insert]
        · rw [dif_neg hlt, Array.getElem?_eq_none (Nat.le_of_not_lt hlt), ih]
      · rw [dif_neg hc, if_pos (by simpa using hc), ih]

/-- **Nothing that was left in a queue shows**: it gets the places that are reached. -/
theorem mem_gather {places : List Nat} {q : Queue p.code.size} {b : Nat} :
    b ∈ (p.gather g places q).dense.toList ↔ b ∈ p.reach g places := by
  rw [gather, spread_dense, List.mem_reverse]
  rfl

end Munch.Program
