import Munch.Proofs.Bytes.Reading
import Munch.Proofs.Pattern.Reading

/-!
# Plain patterns in both dialects

A rule has its pattern in two dialects. Both can read plain patterns, but they need not take them to
match the same words: over bytes the ranges of a class are merged in a way that loses some of them
if they overlap, and over runes a choice is factored without a look at which letters fold case.

* `Rule.takes` and `Rule.takesBytes`: does the pattern of a rule match a word, as one over runes and
  as one over bytes?
* `Rule.SpelledBy r p`: the rule `r` is what the plain pattern `p` compiles to.
* `Plain.Tidy p`: ranges in a class of `p` do not overlap, and whether a letter in `p` folds can be
  told from the letter.

Results:
* `has_classSet`: ranges that do not overlap are merged into their union.
* `Rule.SpelledBy.accepts` and `Rule.SpelledBy.acceptsBytes`: what the programs of a rule accept.
* **`Rule.SpelledBy.takes_eq`**: the two dialects take a tidy pattern to match the same words.
-/

namespace Munch

open Computability Pattern

variable {α : Type}

/-! ## Classes -/

/-- The ranges do not overlap. -/
def Apart (ranges : List (Nat × Nat)) : Prop := ranges.Pairwise fun r s => r.2 < s.1 ∨ s.2 < r.1

namespace Bytes

/-- The ranges are in increasing order and do not overlap. -/
def Ascending (ranges : List (Nat × Nat)) : Prop := ranges.Pairwise fun r s => r.2 < s.1

theorem mem_insertOrdered (r q : Nat × Nat) (rs : List (Nat × Nat)) :
    q ∈ insertOrdered r rs ↔ q = r ∨ q ∈ rs := by
  induction rs with
  | nil => exact List.mem_singleton.trans (or_iff_left List.not_mem_nil).symm
  | cons s rs ih =>
    rw [insertOrdered]
    split
    · rw [List.mem_cons]
    · rw [List.mem_cons, ih, List.mem_cons, or_left_comm]

theorem ascending_insertOrdered {r : Nat × Nat} {rs : List (Nat × Nat)} (h : Ascending rs)
    (hr : r.1 ≤ r.2) (hrs : ∀ s ∈ rs, s.1 ≤ s.2 ∧ (r.2 < s.1 ∨ s.2 < r.1)) :
    Ascending (insertOrdered r rs) := by
  induction rs with
  | nil => exact List.pairwise_singleton _ _
  | cons s rs ih =>
    obtain ⟨hs, hrest⟩ := List.pairwise_cons.mp h
    obtain ⟨⟨hle, hapart⟩, hothers⟩ := List.forall_mem_cons.mp hrs
    rw [insertOrdered]
    split
    next hbefore =>
      have hlt : r.2 < s.1 := by omega
      refine List.pairwise_cons.mpr ⟨List.forall_mem_cons.mpr ⟨hlt, fun q hq => ?_⟩, h⟩
      have := hs q hq
      omega
    next hafter =>
      refine List.pairwise_cons.mpr ⟨fun q hq => ?_, ih hrest hothers⟩
      obtain rfl | hq := (mem_insertOrdered r q rs).mp hq
      · omega
      · exact hs q hq

/-- Ranges that do not overlap are merged only if they are next to each other. -/
theorem mergeOrdered_spec (last : Nat × Nat) {rs : List (Nat × Nat)} (h : Ascending (last :: rs))
    (hascii : ∀ r ∈ last :: rs, CharSet.AsciiRange r) :
    (∀ r ∈ mergeOrdered last rs, CharSet.AsciiRange r) ∧
      ∀ n, (∃ r ∈ mergeOrdered last rs, CharSet.In n r) ↔ ∃ r ∈ last :: rs, CharSet.In n r := by
  induction rs generalizing last with
  | nil => exact ⟨hascii, fun n => Iff.rfl⟩
  | cons r rs ih =>
    obtain ⟨hlast, hrest⟩ := List.pairwise_cons.mp h
    obtain ⟨hr, hothers⟩ := List.pairwise_cons.mp hrest
    obtain ⟨⟨hle, hlt⟩, hrascii⟩ := List.forall_mem_cons.mp hascii
    obtain ⟨⟨hrle, hrlt⟩, hmore⟩ := List.forall_mem_cons.mp hrascii
    have hgap : last.2 < r.1 := hlast r List.mem_cons_self
    have hmod : (last.2 + 1) % 256 = last.2 + 1 := Nat.mod_eq_of_lt (by omega)
    rw [mergeOrdered, hmod]
    split
    next hnext =>
      rw [if_neg (by omega)]
      obtain ⟨hmerged, hin⟩ := ih (last.1, r.2) (List.pairwise_cons.mpr ⟨hr, hothers⟩)
        (List.forall_mem_cons.mpr ⟨⟨by dsimp only; omega, hrlt⟩, hmore⟩)
      refine ⟨hmerged, fun n => (hin n).trans ?_⟩
      simp only [List.exists_mem_cons_iff, CharSet.In]
      rw [← or_assoc]
      exact or_congr_left (by omega)
    · obtain ⟨hmerged, hin⟩ := ih r hrest hrascii
      refine ⟨List.forall_mem_cons.mpr ⟨⟨hle, hlt⟩, hmerged⟩, fun n => ?_⟩
      rw [List.exists_mem_cons_iff, hin, List.exists_mem_cons_iff (a := last)]

/-- **The ranges of a class are merged into their union** if they do not overlap. -/
theorem has_classSet {ranges : List (Nat × Nat)} (hascii : ∀ r ∈ ranges, CharSet.AsciiRange r)
    (hapart : Apart ranges) (n : Nat) :
    (classSet ranges).has n = true ↔ ∃ r ∈ ranges, CharSet.In n r := by
  have hfold (sorted : List (Nat × Nat)) (hsorted : Ascending sorted)
      (hboth : ∀ s ∈ sorted, s.1 ≤ s.2 ∧ ∀ r ∈ ranges, r.2 < s.1 ∨ s.2 < r.1) :
      Ascending (ranges.foldl (fun rs r => insertOrdered r rs) sorted) ∧
        ∀ q, q ∈ ranges.foldl (fun rs r => insertOrdered r rs) sorted ↔ q ∈ sorted ∨
          q ∈ ranges := by
    induction ranges generalizing sorted with
    | nil => exact ⟨hsorted, fun q => (or_iff_left List.not_mem_nil).symm⟩
    | cons r ranges ih =>
      obtain ⟨hr, hrest⟩ := List.pairwise_cons.mp hapart
      obtain ⟨⟨hle, -⟩, hothers⟩ := List.forall_mem_cons.mp hascii
      have hinsert := ascending_insertOrdered hsorted hle
        fun s hs => ⟨(hboth s hs).1, (hboth s hs).2 r List.mem_cons_self⟩
      obtain ⟨hascending, hmem⟩ := ih hothers hrest _ hinsert (by
        intro s hs
        obtain rfl | hs := (mem_insertOrdered r s sorted).mp hs
        · exact ⟨hle, fun q hq => (hr q hq).symm⟩
        · exact ⟨(hboth s hs).1, fun q hq => (hboth s hs).2 q (List.mem_cons_of_mem _ hq)⟩)
      refine ⟨hascending, fun q => (hmem q).trans ?_⟩
      rw [mem_insertOrdered, List.mem_cons, or_comm (a := q = r), or_assoc]
  obtain ⟨hascending, hmem⟩ := hfold [] List.Pairwise.nil (List.forall_mem_nil _)
  unfold classSet
  split
  next hnil =>
    rw [hnil] at hmem
    rw [CharSet.not_has_empty]
    refine ⟨by rintro ⟨⟩, ?_⟩
    rintro ⟨q, hq, -⟩
    exact absurd ((hmem q).mpr (.inr hq)) List.not_mem_nil
  next r rs hcons =>
    rw [hcons] at hmem hascending
    obtain ⟨hmerged, hin⟩ := mergeOrdered_spec r hascending fun q hq =>
      hascii q (((hmem q).mp hq).resolve_left List.not_mem_nil)
    rw [CharSet.has_ofRanges hmerged, hin]
    refine exists_congr fun q => and_congr_left fun _ => ?_
    rw [hmem, or_iff_right List.not_mem_nil]

end Bytes

/-! ## Tidy patterns -/

namespace Plain

/-- The ranges in each class do not overlap. -/
def Clear : {l : Rank} → Plain l → Prop
  | _, .char _ => True
  | _, .set first more => Apart (ranges first more)
  | _, .group body => body.Clear
  | _, .last a _ => a.Clear
  | _, .next a _ rest => a.Clear ∧ rest.Clear
  | _, .only b => b.Clear
  | _, .or b rest => b.Clear ∧ rest.Clear

/-- Nothing in the pattern is taken in two ways. -/
structure Tidy (p : Plain .choice) : Prop where
  clear : p.Clear
  fits : ∃ F, p.Fits F

theorem Clear.words_eq {l : Rank} {p : Plain l} (h : p.Clear) :
    p.words unionSet = p.words Bytes.classSet := by
  induction p with
  | char c => rfl
  | set first more =>
    have hascii := ranges_ascii first more
    exact CharSet.words_congr fun n =>
      ((has_unionSet hascii).2 n).trans (Bytes.has_classSet hascii h n).symm
  | group body ih => exact ih h
  | last a t ih => rw [words, words, ih h]
  | next a t rest ih ihrest => rw [words, words, ih h.1, ihrest h.2]
  | only b ih => exact ih h
  | or b rest ih ihrest => rw [words, words, ih h.1, ihrest h.2]

end Plain

/-! ## Rules -/

namespace Rule

/-- Does the pattern over runes match the whole word? -/
def takes (r : Rule α) (w : List Rune) : Bool :=
  r.program.acceptsAt (fun _ => Bytes.nowhere) w w.length

/-- Does the pattern over bytes match the whole word? -/
def takesBytes (r : Rule α) (w : List Rune) : Bool :=
  match Bytes.compile [r.bytePattern] with
  | .programs [q] => q.acceptsAt (fun _ => Bytes.nowhere) w w.length
  | _ => false

/-- The rule is the one that a plain pattern compiles to. -/
def SpelledBy (r : Rule α) (p : Plain .choice) : Prop :=
  Lexer.compileRule false p.text r.action = .ok r

/-- The rule has a plain pattern that does not match the empty word. -/
def IsPlain (r : Rule α) : Prop := ∃ p : Plain .choice, p.nullable = false ∧ r.SpelledBy p

namespace SpelledBy

variable {r : Rule α} {p : Plain .choice}

theorem bytePattern (h : r.SpelledBy p) : r.bytePattern = p.text := by
  obtain ⟨x, -, hr⟩ := p.compileRule_ok h
  rw [hr]

/-- The words of the pattern over runes: what can be read has no conditions on positions. -/
theorem accepts_iff (h : r.SpelledBy p) :
    ∃ L : Language Rune, (∀ F, p.Fits F → L = p.words unionSet) ∧
    ∀ (gaps : Nat → Gap) {rs : List Rune} {n : Nat}, n ≤ rs.length →
      (r.program.acceptsAt gaps rs n = true ↔ rs.take n ∈ L) := by
  obtain ⟨x, hx, hr⟩ := p.compileRule_ok h
  obtain ⟨hfree, hlang⟩ := p.parse_lang hx
  refine ⟨x.lang, hlang, fun gaps rs n hn => ?_⟩
  rw [hr]
  exact Regex.program_accepts hfree gaps hn

/-- Over runes it makes no difference where a word stands. -/
theorem accepts (h : r.SpelledBy p) (gaps : Nat → Gap) {rs : List Rune} {n : Nat}
    (hn : n ≤ rs.length) : r.program.acceptsAt gaps rs n = r.takes (rs.take n) := by
  obtain ⟨L, -, hL⟩ := h.accepts_iff
  rw [Bool.eq_iff_iff, hL gaps hn, takes, hL _ (Nat.le_refl _), List.take_length]

theorem takesBytes_iff (h : r.SpelledBy p) (hp : p.nullable = false) (w : List Rune) :
    r.takesBytes w = true ↔ w ∈ p.words Bytes.classSet := by
  have hcompile : Bytes.compile [r.bytePattern] = .programs [p.byteProgram] := by
    rw [h.bytePattern]
    exact Plain.compile_text (List.forall_mem_singleton.mpr hp)
  rw [takesBytes, hcompile]
  simp only
  rw [p.byteProgram_accepts _ (Nat.le_refl _), List.take_length]

/-- Over bytes as well. -/
theorem acceptsBytes (h : r.SpelledBy p) (hp : p.nullable = false) (gaps : Nat → Gap)
    {rs : List Rune} {n : Nat} (hn : n ≤ rs.length) :
    p.byteProgram.acceptsAt gaps rs n = r.takesBytes (rs.take n) := by
  rw [Bool.eq_iff_iff, p.byteProgram_accepts gaps hn, h.takesBytes_iff hp]

/-- **The two dialects take a tidy pattern to match the same words.** -/
theorem takes_eq (h : r.SpelledBy p) (hp : p.nullable = false) (htidy : p.Tidy) (w : List Rune) :
    r.takes w = r.takesBytes w := by
  obtain ⟨F, hF⟩ := htidy.fits
  obtain ⟨L, hwords, hL⟩ := h.accepts_iff
  rw [Bool.eq_iff_iff, takes, hL _ (Nat.le_refl _), List.take_length, hwords F hF,
    htidy.clear.words_eq, h.takesBytes_iff hp]

end SpelledBy

end Rule

end Munch
