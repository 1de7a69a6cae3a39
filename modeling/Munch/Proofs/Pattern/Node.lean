import Munch.Pattern.Assembly
import Munch.Proofs.Pattern.CharSet
import Munch.Proofs.Program.Language

/-!
# The words of a part

While a pattern is put together its parts are taken apart, factored and merged. What is to stay the
same is the language of a part.

* `Node.Good n`: the part `n` is one of those that plain patterns are made of: its sets and literals
  are ASCII, it has no conditions on positions and no counted repetitions.
* `Node.Crisp F n`: whether a literal in `n` that could be factored out folds case can be told from
  its code point, and it is what `F` says. Factoring does not look at whether literals fold; in
  crisp parts it need not.

Results:
* `lang_sequence` and `lang_choice`: products and sums of languages.
* `literalOf?_spec`: a set that is written as a literal has the same words.
* `mergeSteps_spec`: merged steps have the words of both.
* `eq_of_looksLike`: of crisp parts, those that look alike as factors are equal.
-/

namespace Munch

open Computability

/-! ## Sets of single runes -/

namespace CharSet

/-- The words of one rune in the set. -/
def words (s : CharSet) : Language Rune := (Regex.step (.among s)).lang

theorem words_congr {s t : CharSet} (h : ∀ n, s.has n = true ↔ t.has n = true) :
    s.words = t.words := by
  have hcontains (r : Rune) : s.contains r = t.contains r := by
    rw [contains, contains, Bool.eq_iff_iff.mpr (h r.toNat)]
  ext w
  show (∃ r, s.contains r = true ∧ w = [r]) ↔ ∃ r, t.contains r = true ∧ w = [r]
  simp only [hcontains]

theorem words_union {s t : CharSet} (hs : s.Ascii) (ht : t.Ascii) :
    (s.union t).words = s.words + t.words := by
  have hcontains (r : Rune) : (s.union t).contains r = true ↔ s.contains r = true ∨
      t.contains r = true := by
    rw [contains, contains, contains, Bool.and_eq_true, Bool.and_eq_true, Bool.and_eq_true,
      has_union hs ht]
    exact and_or_left
  ext w
  constructor
  · rintro ⟨r, hr, hw⟩
    exact ((hcontains r).mp hr).imp (fun h => ⟨r, h, hw⟩) fun h => ⟨r, h, hw⟩
  · rintro (⟨r, hr, hw⟩ | ⟨r, hr, hw⟩)
    · exact ⟨r, (hcontains r).mpr (.inl hr), hw⟩
    · exact ⟨r, (hcontains r).mpr (.inr hr), hw⟩

theorem lang_ofSet {s : CharSet} (h : s.Ascii) : (Regex.step (.ofSet s)).lang = s.words := by
  rw [RuneTest.ofSet_ascii h]
  rfl

end CharSet

namespace Pattern

/-- A code point of ASCII and, if it folds, just one other that it folds with, of ASCII too. -/
def GoodPoint (fold : Bool) (p : Nat) : Prop :=
  p < 128 ∧ (fold = true → ∃ q < 128, Unicode.orbit p = [p, q])

theorem GoodPoint.ascii {fold : Bool} {p : Nat} (h : GoodPoint fold p) :
    (literalSet fold p).Ascii := by
  unfold literalSet
  split
  next hf =>
    obtain ⟨q, hq, horbit⟩ := h.2 hf
    rw [horbit]
    refine CharSet.ascii_ofRanges fun r hr => ?_
    simp only [List.map_cons, List.map_nil, List.mem_cons, List.not_mem_nil, or_false] at hr
    obtain rfl | rfl := hr
    · exact ⟨Nat.le_refl _, h.1⟩
    · exact ⟨Nat.le_refl _, hq⟩
  · exact CharSet.ascii_single h.1

namespace Node

/-- The words of a part. -/
def lang (n : Node) : Language Rune := n.regex.lang

/-- The parts that plain patterns are made of. -/
inductive Good : Node → Prop
  | empty : Good .empty
  | literal {fold : Bool} {points : List Nat} (h : ∀ p ∈ points, GoodPoint fold p) :
      Good (.literal fold points)
  | set {s : CharSet} (h : s.Ascii) : Good (.set s)
  | capture {body : Node} (h : Good body) : Good (.capture body)
  | star {body : Node} (h : Good body) : Good (.star body)
  | plus {body : Node} (h : Good body) : Good (.plus body)
  | option {body : Node} (h : Good body) : Good (.option body)
  | sequence {parts : List Node} (h : ∀ part ∈ parts, Good part) : Good (.sequence parts)
  | choice {parts : List Node} (h : ∀ part ∈ parts, Good part) : Good (.choice parts)

/-- Literals fold as `F` says, those apart that are never factored out. -/
inductive Crisp (F : Nat → Bool) : Node → Prop
  | empty : Crisp F .empty
  | literal {fold : Bool} {points : List Nat} (h : ∀ p ∈ points, F p = fold) :
      Crisp F (.literal fold points)
  | set (s : CharSet) : Crisp F (.set s)
  | capture (body : Node) : Crisp F (.capture body)
  | star (body : Node) : Crisp F (.star body)
  | plus (body : Node) : Crisp F (.plus body)
  | option (body : Node) : Crisp F (.option body)
  | sequence {parts : List Node} (h : ∀ part ∈ parts, Crisp F part) : Crisp F (.sequence parts)
  | choice {parts : List Node} (h : ∀ part ∈ parts, Crisp F part) : Crisp F (.choice parts)

variable {F : Nat → Bool} {fold : Bool} {points : List Nat} {parts : List Node}

theorem Good.literal_points (h : Good (.literal fold points)) : ∀ p ∈ points, GoodPoint fold p := by
  cases h with
  | literal h => exact h

theorem Good.set_ascii {s : CharSet} (h : Good (.set s)) : s.Ascii := by
  cases h with
  | set h => exact h

theorem Good.sequence_parts (h : Good (.sequence parts)) : ∀ part ∈ parts, part.Good := by
  cases h with
  | sequence h => exact h

theorem Good.choice_parts (h : Good (.choice parts)) : ∀ part ∈ parts, part.Good := by
  cases h with
  | choice h => exact h

theorem Crisp.literal_points (h : Crisp F (.literal fold points)) : ∀ p ∈ points, F p = fold := by
  cases h with
  | literal h => exact h

theorem Crisp.sequence_parts (h : Crisp F (.sequence parts)) : ∀ part ∈ parts, part.Crisp F := by
  cases h with
  | sequence h => exact h

theorem Crisp.choice_parts (h : Crisp F (.choice parts)) : ∀ part ∈ parts, part.Crisp F := by
  cases h with
  | choice h => exact h

/-! ## Languages -/

@[simp] theorem lang_empty : lang .empty = 1 := rfl

@[simp] theorem lang_capture (body : Node) : lang (.capture body) = body.lang := rfl

@[simp] theorem lang_star (body : Node) : lang (.star body) = body.lang∗ :=
  Regex.lang_star body.regex

@[simp] theorem lang_plus (body : Node) : lang (.plus body) = body.lang * body.lang∗ := rfl

@[simp] theorem lang_option (body : Node) : lang (.option body) = body.lang + 1 :=
  Regex.lang_option body.regex

theorem lang_set {s : CharSet} (h : s.Ascii) : lang (.set s) = s.words := CharSet.lang_ofSet h

@[simp] theorem lang_literal_nil (fold : Bool) : lang (.literal fold []) = 1 := rfl

theorem lang_literal_cons (fold : Bool) (p : Nat) (points : List Nat) :
    lang (.literal fold (p :: points)) = lang (.literal fold [p]) *
      lang (.literal fold points) := by
  have hsingle : lang (.literal fold [p]) = (Regex.step (.ofSet (literalSet fold p))).lang :=
    mul_one _
  rw [hsingle]
  rfl

theorem lang_literal_append (fold : Bool) (points points' : List Nat) :
    lang (.literal fold (points ++ points')) = lang (.literal fold points) *
      lang (.literal fold points') := by
  induction points with
  | nil => rw [List.nil_append, lang_literal_nil, one_mul]
  | cons p points ih =>
    rw [List.cons_append, lang_literal_cons, ih, lang_literal_cons fold p points, mul_assoc]

theorem lang_literal_one {p : Nat} (h : GoodPoint fold p) :
    lang (.literal fold [p]) = (literalSet fold p).words :=
  (mul_one _).trans (CharSet.lang_ofSet h.ascii)

/-- The language of a sequence is a product. -/
theorem lang_sequence (parts : List Node) : lang (.sequence parts) = (parts.map lang).prod := by
  show (sequenceRegex parts).lang = _
  induction parts with
  | nil => rfl
  | cons part parts ih =>
    rw [List.map_cons, List.prod_cons, ← ih]
    rfl

/-- The language of a choice is a sum. -/
theorem lang_choice (parts : List Node) : lang (.choice parts) = (parts.map lang).sum := by
  show (choiceRegex parts).lang = _
  induction parts with
  | nil =>
    ext w
    refine ⟨?_, fun h => h.elim⟩
    rintro ⟨r, hr, -⟩
    rw [RuneTest.accepts, CharSet.contains, CharSet.not_has_empty, Bool.and_false] at hr
    cases hr
  | cons part parts ih =>
    cases parts with
    | nil =>
      rw [List.map_singleton, List.sum_singleton]
      rfl
    | cons next parts =>
      rw [List.map_cons, List.sum_cons, ← ih]
      rfl

/-- A good part has no conditions on positions. -/
theorem Good.free {n : Node} (h : n.Good) : n.regex.Free := by
  have hsteps (steps : List RuneTest) : (Regex.sequence (steps.map .step)).Free := by
    induction steps with
    | nil => trivial
    | cons test steps ih => exact ⟨trivial, ih⟩
  induction h with
  | empty => trivial
  | @literal fold points _ =>
    have hmap := hsteps (points.map fun p => .ofSet (literalSet fold p))
    rwa [List.map_map] at hmap
  | set _ => trivial
  | capture _ ih | plus _ ih => exact ih
  | star _ ih | option _ ih => exact ⟨ih, trivial⟩
  | @sequence parts hparts ih =>
    show (sequenceRegex parts).Free
    induction parts with
    | nil => trivial
    | cons part parts ihparts =>
      exact ⟨ih part List.mem_cons_self, ihparts (fun _ h => hparts _ (List.mem_cons_of_mem _ h))
        fun _ h => ih _ (List.mem_cons_of_mem _ h)⟩
  | @choice parts hparts ih =>
    show (choiceRegex parts).Free
    induction parts with
    | nil => trivial
    | cons part parts ihparts =>
      cases parts with
      | nil => exact ih part List.mem_cons_self
      | cons next parts =>
        exact ⟨ih part List.mem_cons_self, ihparts (fun _ h => hparts _ (List.mem_cons_of_mem _ h))
          fun _ h => ih _ (List.mem_cons_of_mem _ h)⟩

/-! ## Sets and literals -/

/-- A letter in both cases is what a caseless literal of it stands for. -/
theorem lang_literal_orbit {s : CharSet} {a b : Nat} (hs : s.Ascii)
    (hhas : ∀ n, s.has n = true ↔ n = a ∨ n = b) (ha : a < 128) (hb : b < 128)
    (horbit : Unicode.orbit a = [a, b]) :
    GoodPoint true a ∧ lang (.literal true [a]) = lang (.set s) := by
  have hgood : GoodPoint true a := ⟨ha, fun _ => ⟨b, hb, horbit⟩⟩
  refine ⟨hgood, ?_⟩
  rw [lang_literal_one hgood, lang_set hs]
  refine CharSet.words_congr fun n => ?_
  have hranges : ∀ r ∈ [(a, a), (b, b)], CharSet.AsciiRange r := by
    simp only [List.mem_cons, List.not_mem_nil, or_false]
    rintro r (rfl | rfl)
    · exact ⟨Nat.le_refl _, ha⟩
    · exact ⟨Nat.le_refl _, hb⟩
  have hset : literalSet true a = .ofRanges [(a, a), (b, b)] := by
    rw [literalSet, if_pos rfl, horbit]
    rfl
  rw [hset, CharSet.has_ofRanges hranges, hhas]
  simp only [List.exists_mem_cons_iff, List.not_mem_nil, false_and, exists_false, or_false,
    CharSet.In]
  omega

/-- A set of a single rune is what a literal of it stands for. -/
theorem lang_literal_single {a : Nat} (ha : a < 128) :
    GoodPoint false a ∧ lang (.literal false [a]) = lang (.set ⟨[(a, a)]⟩) := by
  have hgood : GoodPoint false a := ⟨ha, by rintro ⟨⟩⟩
  have hascii : CharSet.Ascii ⟨[(a, a)]⟩ := by
    intro r hr
    rw [List.mem_singleton.mp hr]
    exact ⟨Nat.le_refl _, ha⟩
  refine ⟨hgood, ?_⟩
  rw [lang_literal_one hgood, lang_set hascii, literalSet, if_neg Bool.false_ne_true,
    CharSet.single, CharSet.range]

/-- **A set that is written as a literal has the same words.** -/
theorem literalOf?_spec {n : Node} {p : Nat} (h : literalOf? n = some (fold, p)) (hn : n.Good) :
    GoodPoint fold p ∧ lang (.literal fold [p]) = n.lang := by
  unfold literalOf? at h
  split at h
  next a b =>
    have hs := hn.set_ascii
    obtain ⟨-, hb⟩ := hs (a, b) (List.mem_singleton_self _)
    split at h
    next heq =>
      cases h
      subst heq
      exact lang_literal_single hb
    · split at h
      next _ hletters =>
        cases h
        refine lang_literal_orbit hs (fun n => ?_) (by omega) hb hletters.2
        rw [CharSet.has_iff]
        simp only [List.exists_mem_cons_iff, List.not_mem_nil, false_and, exists_false, or_false,
          CharSet.In]
        omega
      · cases h
  next a b c d =>
    have hs := hn.set_ascii
    split at h
    next hletters =>
      cases h
      obtain ⟨rfl, rfl, horbit⟩ := hletters
      refine lang_literal_orbit hs (fun n => ?_)
        (hs (p, p) (by simp)).2 (hs (c, c) (by simp)).2 horbit
      rw [CharSet.has_iff]
      simp only [List.exists_mem_cons_iff, List.not_mem_nil, false_and, exists_false, or_false,
        CharSet.In]
      omega
    · cases h
  · cases h

/-- A good part is as tidy as it can be. -/
theorem Good.tidied {n : Node} (h : n.Good) : n.tidied = n := by
  cases h with
  | set h => rw [Node.tidied, if_neg h.ne_all, if_neg h.ne_notNewline]
  | _ => rfl

/-! ## Single steps -/

/-- A good step takes the runes of a set of ASCII. -/
theorem Good.step {n : Node} (h : n.Good) (hstep : n.isStep = true) :
    n.stepSet.Ascii ∧ n.lang = n.stepSet.words := by
  unfold isStep at hstep
  split at hstep
  next fold p =>
    have hp := h.literal_points p (List.mem_singleton_self p)
    exact ⟨hp.ascii, lang_literal_one hp⟩
  · exact ⟨h.set_ascii, lang_set h.set_ascii⟩
  · cases h
  · cases h
  · cases hstep

/-- **Merged steps have the words of both.** -/
theorem mergeSteps_spec {m n : Node} (hm : m.Good) (hn : n.Good) (hms : m.isStep = true)
    (hns : n.isStep = true) :
    (mergeSteps m n).Good ∧ (mergeSteps m n).isStep = true ∧
      (mergeSteps m n).lang = m.lang + n.lang ∧
      (m.Crisp F → (mergeSteps m n).Crisp F) := by
  obtain ⟨hmset, hmlang⟩ := hm.step hms
  obtain ⟨hnset, hnlang⟩ := hn.step hns
  have hunion := hmset.union hnset
  have hset : (Node.set (m.stepSet.union n.stepSet)).Good ∧
      (Node.set (m.stepSet.union n.stepSet)).isStep = true ∧
      (Node.set (m.stepSet.union n.stepSet)).lang = m.lang + n.lang ∧
      (m.Crisp F → (Node.set (m.stepSet.union n.stepSet)).Crisp F) :=
    ⟨.set hunion, rfl, by rw [lang_set hunion, CharSet.words_union hmset hnset, hmlang, hnlang],
      fun _ => .set _⟩
  unfold mergeSteps
  split
  · cases hm
  · cases hn
  · cases hm
  · cases hn
  · split
    next heq =>
      obtain ⟨rfl, rfl⟩ := heq
      refine ⟨hm, hms, ?_, id⟩
      exact (show ∀ L : Language Rune, L = L + L from fun L => (add_idem L).symm) _
    · exact hset
  · exact hset

/-- **Of crisp parts, those that look alike as factors are equal.** -/
theorem eq_of_looksLike {m n : Node} (hm : m.Good) (hn : n.Good) (hmc : m.Crisp F) (hnc : n.Crisp F)
    (h : m.looksLike n = true) (hf : m.isFactor = true) : m = n := by
  cases hm with
  | @literal fold points hpoints =>
    cases hn with
    | @literal fold' points' hpoints' =>
      rw [looksLike, beq_iff_eq] at h
      subst h
      cases points with
      | nil => cases hf
      | cons p points =>
        have h₁ := hmc.literal_points p List.mem_cons_self
        have h₂ := hnc.literal_points p List.mem_cons_self
        rw [← h₁, ← h₂]
    | _ => cases h
  | set hs =>
    cases hn with
    | set ht =>
      rw [looksLike, decide_eq_true_eq] at h
      rw [h]
    | _ => cases h
  | _ => cases hf

end Node

end Pattern

end Munch
