import Mathlib.Data.List.Basic
import Munch.Pattern.Regex

/-!
# Sets of ASCII

Sets are lists of ranges. For the ranges that patterns over ASCII are made of, the operations on the
lists are the operations on the sets.

* `CharSet.Ascii s`: the ranges of `s` are not empty and lie in ASCII.

Results:
* `CharSet.has_insert`, `CharSet.has_union` and `CharSet.has_ofRanges`: what is in a set.
* `RuneTest.ofSet_ascii`: a test for such a set takes no other runes.
-/

namespace Munch

namespace CharSet

/-- Is `n` in the range? -/
def In (n : Nat) (r : Nat × Nat) : Prop := r.1 ≤ n ∧ n ≤ r.2

/-- A range that is not empty and lies in ASCII. -/
def AsciiRange (r : Nat × Nat) : Prop := r.1 ≤ r.2 ∧ r.2 < 128

/-- A set with ranges in ASCII only, none of them empty. -/
def Ascii (s : CharSet) : Prop := ∀ r ∈ s.ranges, AsciiRange r

theorem has_iff {s : CharSet} {n : Nat} : s.has n = true ↔ ∃ r ∈ s.ranges, In n r := by
  simp [has, In, List.any_eq_true]

theorem ascii_empty : Ascii empty := by
  rintro r ⟨⟩

theorem not_has_empty (n : Nat) : empty.has n = false := rfl

theorem insertRange_spec {lo hi : Nat} (h : AsciiRange (lo, hi)) {rs : List (Nat × Nat)}
    (hrs : ∀ r ∈ rs, AsciiRange r) :
    (∀ r ∈ insertRange lo hi rs, AsciiRange r) ∧
      ∀ n, (∃ r ∈ insertRange lo hi rs, In n r) ↔ In n (lo, hi) ∨ ∃ r ∈ rs, In n r := by
  induction rs generalizing lo hi with
  | nil =>
    refine ⟨fun r hr => ?_, fun n => ?_⟩
    · rw [insertRange, List.mem_singleton] at hr
      rw [hr]
      exact h
    · simp [insertRange]
  | cons r rs ih =>
    obtain ⟨a, b⟩ := r
    have hab := hrs _ List.mem_cons_self
    have hrest : ∀ r ∈ rs, AsciiRange r := fun r hr => hrs r (List.mem_cons_of_mem _ hr)
    rw [insertRange]
    split
    · refine ⟨fun r hr => ?_, fun n => by simp⟩
      obtain rfl | hr := List.mem_cons.mp hr
      · exact h
      · exact hrs r hr
    · split
      · obtain ⟨hascii, hin⟩ := ih h hrest
        refine ⟨fun r hr => ?_, fun n => ?_⟩
        · obtain rfl | hr := List.mem_cons.mp hr
          · exact hab
          · exact hascii r hr
        · simp only [List.exists_mem_cons_iff, hin]
          constructor <;> (rintro (h | h | h) <;> simp [h])
      next hnear hfar =>
        unfold AsciiRange at h hab
        have hmelt : AsciiRange (min lo a, max hi b) := by
          unfold AsciiRange
          simp only
          omega
        obtain ⟨hascii, hin⟩ := ih hmelt hrest
        refine ⟨hascii, fun n => ?_⟩
        have hboth : In n (min lo a, max hi b) ↔ In n (lo, hi) ∨ In n (a, b) := by
          unfold In
          simp only at h hab ⊢
          omega
        simp only [hin, List.exists_mem_cons_iff, hboth]
        exact or_assoc

theorem Ascii.insert {s : CharSet} (hs : s.Ascii) {lo hi : Nat} (h : AsciiRange (lo, hi)) :
    (s.insert lo hi).Ascii := (insertRange_spec h hs).1

theorem has_insert {s : CharSet} (hs : s.Ascii) {lo hi : Nat} (h : AsciiRange (lo, hi)) (n : Nat) :
    (s.insert lo hi).has n = true ↔ In n (lo, hi) ∨ s.has n = true := by
  rw [has_iff, has_iff]
  exact (insertRange_spec h hs).2 n

/-- Adding ranges to a set. -/
theorem foldr_insert {rs : List (Nat × Nat)} (hrs : ∀ r ∈ rs, AsciiRange r) {s : CharSet}
    (hs : s.Ascii) :
    (rs.foldr (fun (lo, hi) u => u.insert lo hi) s).Ascii ∧
      ∀ n, (rs.foldr (fun (lo, hi) u => u.insert lo hi) s).has n = true ↔
        (∃ r ∈ rs, In n r) ∨ s.has n = true := by
  induction rs with
  | nil => exact ⟨hs, fun n => by simp⟩
  | cons r rs ih =>
    obtain ⟨hascii, hhas⟩ := ih fun r hr => hrs r (List.mem_cons_of_mem _ hr)
    have hr := hrs r List.mem_cons_self
    refine ⟨hascii.insert hr, fun n => ?_⟩
    simp only [List.foldr_cons, has_insert hascii hr, hhas, List.exists_mem_cons_iff]
    exact or_assoc.symm

theorem Ascii.union {s t : CharSet} (hs : s.Ascii) (ht : t.Ascii) : (s.union t).Ascii :=
  (foldr_insert hs ht).1

theorem has_union {s t : CharSet} (hs : s.Ascii) (ht : t.Ascii) (n : Nat) :
    (s.union t).has n = true ↔ s.has n = true ∨ t.has n = true := by
  rw [has_iff (s := s)]
  exact (foldr_insert hs ht).2 n

theorem ascii_ofRanges {rs : List (Nat × Nat)} (hrs : ∀ r ∈ rs, AsciiRange r) :
    (ofRanges rs).Ascii :=
  (foldr_insert hrs ascii_empty).1

theorem has_ofRanges {rs : List (Nat × Nat)} (hrs : ∀ r ∈ rs, AsciiRange r) (n : Nat) :
    (ofRanges rs).has n = true ↔ ∃ r ∈ rs, In n r := by
  rw [ofRanges, (foldr_insert hrs ascii_empty).2, not_has_empty]
  simp

theorem ascii_range {lo hi : Nat} (h : AsciiRange (lo, hi)) : (range lo hi).Ascii := by
  intro r hr
  rw [range, List.mem_singleton] at hr
  rw [hr]
  exact h

theorem has_range (lo hi n : Nat) : (range lo hi).has n = true ↔ In n (lo, hi) := by
  simp [has_iff, range]

theorem ascii_single {p : Nat} (h : p < 128) : (single p).Ascii := ascii_range ⟨Nat.le_refl p, h⟩

/-- No set of ASCII is one of those that take runes beyond the code points. -/
theorem Ascii.ne_all {s : CharSet} (h : s.Ascii) : s ≠ .all := by
  rintro rfl
  exact absurd (h _ (List.mem_singleton_self _)).2 (by decide)

theorem Ascii.ne_notNewline {s : CharSet} (h : s.Ascii) : s ≠ .notNewline := by
  rintro rfl
  exact absurd (h (11, maxPoint) (by simp [notNewline])).2 (by decide)

end CharSet

/-- A test for a set of ASCII is a test for just that set. -/
theorem RuneTest.ofSet_ascii {s : CharSet} (h : s.Ascii) : RuneTest.ofSet s = .among s := by
  rw [RuneTest.ofSet, if_neg h.ne_all, if_neg h.ne_notNewline]

end Munch
