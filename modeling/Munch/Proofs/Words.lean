import Mathlib.Data.List.Basic
import Munch.Definitions
import Munch.Text.Blank

/-!
# Texts cut into pieces and words

* `Text.IsWord`: something, and without white space.
* `Text.Trimmed`: no white space at either end.
* `IsIdentifier`: a letter or an underscore, and letters, digits and underscores.

Results:
* `Text.trim_padded`: trimming cuts off what is white space, and nothing else.
* `Text.exists_padded`: every text is what trimming leaves of it, with white space around.
* `Text.words_gap`: a word ends where white space starts.
* `Text.pieces_line`: a piece ends at the character that sets pieces apart.
* `Text.pieces_intercalate`, `Text.intercalate_pieces`: cutting undoes joining, and joining undoes
  cutting.
* `Text.startsWith_iff`: what a text starts with is a prefix.
* `IsIdentifier.isWord`: an identifier is a word.
-/

namespace Munch

theorem Symbol.is_iff {s : Symbol} {c : Char} : s.is c = true ↔ s = .char c := by
  cases s <;> simp [Symbol.is]

namespace Text

/-! ## White space at the ends -/

/-- A word: something, and without white space. -/
def IsWord (t : Text) : Prop := t ≠ [] ∧ ∀ s ∈ t, s.isBlank = false

instance (t : Text) : Decidable t.IsWord := inferInstanceAs (Decidable (_ ∧ _))

/-- All of the text is white space. -/
def Blank (t : Text) : Prop := ∀ s ∈ t, s.isBlank = true

/-- The text neither starts nor ends with white space. -/
def Trimmed (t : Text) : Prop :=
  (∀ s ∈ t.head?, s.isBlank = false) ∧ ∀ s ∈ t.getLast?, s.isBlank = false

instance (t : Text) : Decidable t.Trimmed := inferInstanceAs (Decidable (_ ∧ _))

theorem IsWord.trimmed {t : Text} (h : t.IsWord) : t.Trimmed :=
  ⟨fun s hs => h.2 s (List.mem_of_head? hs), fun s hs => h.2 s (List.mem_of_getLast? hs)⟩

theorem trimStart_blank {before : Text} (h : before.Blank) (t : Text) :
    trimStart (before ++ t) = trimStart t :=
  List.dropWhile_append_of_pos h

theorem trimStart_trimmed {t : Text} (h : ∀ s ∈ t.head?, s.isBlank = false) (u : Text)
    (hne : t ≠ []) : trimStart (t ++ u) = t ++ u := by
  cases t with
  | nil => exact absurd rfl hne
  | cons s t =>
    have hs : s.isBlank = false := h s rfl
    rw [trimStart, List.cons_append,
      List.dropWhile_cons_of_neg (by rw [hs]; exact Bool.false_ne_true)]

/-- Trimming the end leaves a first symbol that is no white space. -/
theorem trimEnd_cons {s : Symbol} (hs : s.isBlank = false) (t : Text) :
    ∃ u, trimEnd (s :: t) = s :: u := by
  have hlast : List.dropWhile Symbol.isBlank [s] = [s] := by rw [List.dropWhile_cons, hs]; rfl
  rw [trimEnd, List.reverse_cons, List.dropWhile_append, hlast]
  split
  · exact ⟨[], rfl⟩
  · rw [List.reverse_append]
    exact ⟨_, rfl⟩

/-- **Trimming cuts white space off**, and nothing else. -/
theorem trim_padded {before t after : Text} (hb : before.Blank) (ht : t.Trimmed)
    (ha : after.Blank) : trim (before ++ t ++ after) = t := by
  have hend : trimEnd (t ++ after) = t := by
    rw [trimEnd, List.reverse_append,
      List.dropWhile_append_of_pos fun s hs => ha s (List.mem_reverse.mp hs)]
    cases hr : t.reverse with
    | nil => rw [List.dropWhile_nil, List.reverse_nil, List.reverse_eq_nil_iff.mp hr]
    | cons s r =>
      have hlast : t.getLast? = some s := by
        rw [List.getLast?_eq_head?_reverse, hr, List.head?_cons]
      have hs : s.isBlank = false := ht.2 s hlast
      rw [List.dropWhile_cons_of_neg (by rw [hs]; exact Bool.false_ne_true), ← hr,
        List.reverse_reverse]
  rw [trim, List.append_assoc, trimStart_blank hb]
  cases t with
  | nil => rw [List.nil_append, ← List.append_nil after, trimStart_blank ha]; rfl
  | cons s t => rw [trimStart_trimmed ht.1 after (List.cons_ne_nil s t), hend]

/-- Every text is what trimming leaves of it, with white space around. -/
theorem exists_padded (t : Text) : ∃ before after : Text, before.Blank ∧ after.Blank ∧
    t.trim.Trimmed ∧ t = before ++ t.trim ++ after := by
  have hsplit (u : Text) : u.takeWhile Symbol.isBlank ++ u.dropWhile Symbol.isBlank = u :=
    List.takeWhile_append_dropWhile
  have hblank (u : Text) : Blank (u.takeWhile Symbol.isBlank) :=
    List.all_eq_true.mp List.all_takeWhile
  have hsolid (u : Text) : ∀ s ∈ (u.dropWhile Symbol.isBlank).head?, s.isBlank = false := by
    intro s hs
    have h := List.head?_dropWhile_not Symbol.isBlank u
    rwa [hs] at h
  have hend : t.trimStart = t.trim ++ (t.trimStart.reverse.takeWhile Symbol.isBlank).reverse := by
    rw [trim, trimEnd, ← List.reverse_append, hsplit, List.reverse_reverse]
  refine ⟨t.takeWhile Symbol.isBlank, (t.trimStart.reverse.takeWhile Symbol.isBlank).reverse,
    hblank t, fun s hs => hblank _ s (List.mem_reverse.mp hs), ⟨fun s hs => ?_, fun s hs => ?_⟩, ?_⟩
  · refine hsolid t s ?_
    rw [← trimStart, hend,
      List.head?_append_of_ne_nil _ (List.ne_nil_of_mem (List.mem_of_head? hs))]
    exact hs
  · rw [trim, trimEnd, List.getLast?_reverse] at hs
    exact hsolid _ s hs
  · rw [List.append_assoc, ← hend]
    exact (hsplit t).symm

/-! ## Words -/

theorem wordsFrom_solid {c : Text} (h : ∀ s ∈ c, s.isBlank = false) (word t : Text) :
    wordsFrom word (c ++ t) = wordsFrom (c.reverse ++ word) t := by
  induction c generalizing word with
  | nil => rfl
  | cons s c ih =>
    have hs : s.isBlank = false := h s List.mem_cons_self
    rw [List.cons_append, wordsFrom, hs, if_neg Bool.false_ne_true,
      ih fun s' hs' => h s' (List.mem_cons_of_mem _ hs'), List.reverse_cons, List.append_assoc,
      List.singleton_append]

/-- White space belongs to no word. -/
theorem words_blank {gap : Text} (h : gap.Blank) (t : Text) : words (gap ++ t) = words t := by
  induction gap with
  | nil => rfl
  | cons s gap ih =>
    have hs : s.isBlank = true := h s List.mem_cons_self
    rw [words, List.cons_append, wordsFrom, if_pos hs, if_pos List.isEmpty_nil]
    exact ih fun s' hs' => h s' (List.mem_cons_of_mem _ hs')

theorem words_word {c : Text} (h : c.IsWord) : words c = [c] := by
  have hne : c.reverse.isEmpty = false := by
    rw [List.isEmpty_reverse, List.isEmpty_eq_false_iff]
    exact h.1
  rw [words, ← List.append_nil c, wordsFrom_solid h.2, List.append_nil, List.append_nil, wordsFrom,
    hne, if_neg Bool.false_ne_true, List.reverse_reverse]

/-- **A word ends where white space starts.** -/
theorem words_gap {c gap : Text} (h : c.IsWord) (hgap : gap.Blank) (hne : gap ≠ []) (t : Text) :
    words (c ++ gap ++ t) = c :: words t := by
  cases gap with
  | nil => exact absurd rfl hne
  | cons s gap =>
    have hs : s.isBlank = true := hgap s List.mem_cons_self
    have hne : c.reverse.isEmpty = false := by
      rw [List.isEmpty_reverse, List.isEmpty_eq_false_iff]
      exact h.1
    rw [words, List.append_assoc, wordsFrom_solid h.2, List.append_nil, List.cons_append, wordsFrom,
      if_pos hs, hne, if_neg Bool.false_ne_true, List.reverse_reverse]
    exact congrArg (c :: ·) (words_blank (fun s' hs' => hgap s' (List.mem_cons_of_mem _ hs')) t)

/-- A text that does not start with white space has a first word. -/
theorem words_ne_nil {t : Text} (h : ∀ s ∈ t.head?, s.isBlank = false) (hne : t ≠ []) :
    words t ≠ [] := by
  have hword (word t : Text) (hword : word ≠ []) : wordsFrom word t ≠ [] := by
    induction t generalizing word with
    | nil => rw [wordsFrom, if_neg (by rwa [List.isEmpty_iff])]; exact List.cons_ne_nil _ _
    | cons s t ih =>
      rw [wordsFrom]
      split
      · rw [if_neg (by rwa [List.isEmpty_iff])]
        exact List.cons_ne_nil _ _
      · exact ih _ (List.cons_ne_nil _ _)
  cases t with
  | nil => exact absurd rfl hne
  | cons s t =>
    rw [words, wordsFrom, h s rfl, if_neg Bool.false_ne_true]
    exact hword _ _ (List.cons_ne_nil _ _)

/-! ## Pieces -/

theorem holds_append (t u : Text) (c : Char) : (t ++ u).holds c = (t.holds c || u.holds c) :=
  List.any_append

theorem holds_iff {t : Text} {c : Char} : t.holds c = true ↔ .char c ∈ t := by
  rw [holds, List.any_eq_true]
  constructor
  · rintro ⟨s, hs, hchar⟩
    exact Symbol.is_iff.mp hchar ▸ hs
  · exact fun hs => ⟨_, hs, Symbol.is_iff.mpr rfl⟩

theorem holds_eq_false_iff {t : Text} {c : Char} : t.holds c = false ↔ .char c ∉ t := by
  rw [← holds_iff, Bool.not_eq_true]

/-- White space holds no other character. -/
theorem Blank.holds {t : Text} (h : t.Blank) {c : Char} (hc : isBlank c = false) :
    t.holds c = false :=
  holds_eq_false_iff.mpr fun hmem => Bool.false_ne_true (hc.symm.trans (h _ hmem))

/-- A word is on one line. -/
theorem IsWord.oneLine {t : Text} (h : t.IsWord) : t.holds '\n' = false := by
  refine holds_eq_false_iff.mpr fun hnewline => ?_
  cases h.2 _ hnewline

theorem pieces_ne_nil (c : Char) (t : Text) : pieces c t ≠ [] := by
  cases t with
  | nil => exact List.cons_ne_nil _ _
  | cons s t =>
    rw [pieces]
    split
    · exact List.cons_ne_nil _ _
    · split <;> exact List.cons_ne_nil _ _

/-- A text without the character is one piece. -/
theorem pieces_one {c : Char} {t : Text} (h : t.holds c = false) : pieces c t = [t] := by
  induction t with
  | nil => rfl
  | cons s t ih =>
    rw [holds, List.any_cons, Bool.or_eq_false_iff] at h
    rw [pieces, ih h.2]
    exact if_neg (by rw [h.1]; exact Bool.false_ne_true)

/-- **A piece ends at the character.** -/
theorem pieces_line {c : Char} {t : Text} (h : t.holds c = false) (u : Text) :
    pieces c (t ++ .char c :: u) = t :: pieces c u := by
  induction t with
  | nil =>
    rw [List.nil_append, pieces]
    split
    next hnil => exact absurd hnil (pieces_ne_nil c u)
    next piece rest hpieces =>
      rw [hpieces]
      exact if_pos (Symbol.is_iff.mpr rfl)
  | cons s t ih =>
    rw [holds, List.any_cons, Bool.or_eq_false_iff] at h
    rw [List.cons_append, pieces, ih h.2]
    exact if_neg (by rw [h.1]; exact Bool.false_ne_true)

/-- **Pieces that are joined by the character are found again.** -/
theorem pieces_intercalate {c : Char} {ts : List Text} (h : ∀ t ∈ ts, t.holds c = false)
    (hne : ts ≠ []) : pieces c (List.intercalate [.char c] ts) = ts := by
  induction ts with
  | nil => exact absurd rfl hne
  | cons t ts ih =>
    have ht := h t List.mem_cons_self
    cases ts with
    | nil => simpa [List.intercalate] using pieces_one ht
    | cons t' ts =>
      have hrest := ih (fun u hu => h u (List.mem_cons_of_mem _ hu)) (List.cons_ne_nil _ _)
      have hjoin : List.intercalate [.char c] (t :: t' :: ts) =
          t ++ .char c :: List.intercalate [.char c] (t' :: ts) := by
        simp [List.intercalate]
      rw [hjoin, pieces_line ht, hrest]

/-- The pieces of a text, joined again. -/
theorem intercalate_pieces (c : Char) (t : Text) : List.intercalate [.char c] (pieces c t) = t := by
  induction t with
  | nil => rfl
  | cons s t ih =>
    rw [pieces]
    split
    next hnil => exact absurd hnil (pieces_ne_nil c t)
    next piece rest hpieces =>
      rw [hpieces] at ih
      split
      next hs => rw [List.intercalate_cons_cons, ih, Symbol.is_iff.mp hs]; rfl
      next => cases rest <;> rw [← ih] <;> rfl

/-- A piece is made of symbols of the text, and does not hold the character that sets pieces
apart. -/
theorem mem_of_mem_pieces {c : Char} {t piece : Text} (h : piece ∈ pieces c t) :
    piece ⊆ t ∧ .char c ∉ piece := by
  induction t generalizing piece with
  | nil =>
    obtain rfl := List.mem_singleton.mp h
    exact ⟨List.Subset.refl _, List.not_mem_nil⟩
  | cons s t ih =>
    rw [pieces] at h
    split at h
    next hnil => exact absurd hnil (pieces_ne_nil c t)
    next first rest hpieces =>
      rw [hpieces] at ih
      have hrest (hmem : piece ∈ first :: rest) : piece ⊆ s :: t ∧ .char c ∉ piece :=
        ⟨List.subset_cons_of_subset s (ih hmem).1, (ih hmem).2⟩
      split at h
      next =>
        obtain rfl | h := List.mem_cons.mp h
        · exact ⟨List.nil_subset _, List.not_mem_nil⟩
        · exact hrest h
      next hs =>
        obtain rfl | h := List.mem_cons.mp h
        · obtain ⟨hsub, hnot⟩ := ih List.mem_cons_self
          refine ⟨List.cons_subset_cons s hsub, fun hmem => ?_⟩
          obtain rfl | hmem := List.mem_cons.mp hmem
          · exact hs (Symbol.is_iff.mpr rfl)
          · exact hnot hmem
        · exact hrest (List.mem_cons_of_mem _ h)

/-! ## Fronts -/

/-- **What a text starts with is a prefix.** -/
theorem startsWith_iff {t front : Text} : t.startsWith front = true ↔ front <+: t := by
  unfold startsWith
  induction front generalizing t with
  | nil => simp [after?]
  | cons s front ih =>
    cases t with
    | nil => simp [after?]
    | cons s' t =>
      rw [after?, List.cons_prefix_cons, ← ih]
      by_cases hs : s = s' <;> simp [hs]

/-- A front without a symbol lies before that symbol. -/
theorem startsWith_append_cons {t u front : Text} {s : Symbol} (hs : s ∉ front) :
    (t ++ s :: u).startsWith front = t.startsWith front := by
  rw [Bool.eq_iff_iff, startsWith_iff, startsWith_iff]
  refine ⟨fun hfront => ?_, fun hfront => hfront.trans (List.prefix_append t _)⟩
  obtain hshort | ⟨v, rfl⟩ := List.prefix_or_prefix_of_prefix hfront (List.prefix_append t (s :: u))
  · exact hshort
  · rw [List.prefix_append_right_inj] at hfront
    cases v with
    | nil => exact (List.append_nil t).symm ▸ List.prefix_refl t
    | cons s' v =>
      rw [List.cons_prefix_cons] at hfront
      exact absurd (by simp [hfront.1]) hs

end Text

/-! ## Identifiers -/

/-- A letter or an underscore, and letters, digits and underscores behind it. -/
def IsIdentifier : Text → Prop
  | [] => False
  | s :: rest => s.startsName = true ∧ ∀ x ∈ rest, x.inName = true

instance : DecidablePred IsIdentifier
  | [] => isFalse id
  | s :: rest => inferInstanceAs (Decidable (s.startsName = true ∧ ∀ x ∈ rest, x.inName = true))

theorem inName_of_startsName {s : Symbol} (h : s.startsName = true) : s.inName = true := by
  cases s with
  | char c =>
    simp only [Symbol.startsName, Symbol.inName, Char.isAlphanum, Bool.or_eq_true] at h ⊢
    exact h.imp_left .inl
  | stray b => cases h

/-- A name holds no white space. -/
theorem Symbol.isBlank_of_inName {s : Symbol} (h : s.inName = true) : s.isBlank = false := by
  cases s with
  | stray => cases h
  | char c =>
    have hrange : (48 ≤ c.toNat ∧ c.toNat ≤ 57) ∨ (65 ≤ c.toNat ∧ c.toNat ≤ 90) ∨ c.toNat = 95 ∨
        (97 ≤ c.toNat ∧ c.toNat ≤ 122) := by
      have hname : c.isAlphanum = true ∨ c = '_' := by simpa [inName] using h
      obtain hname | rfl := hname
      · have hranges : c.isAlphanum = (decide (65 ≤ c.val ∧ c.val ≤ 90) ||
            decide (97 ≤ c.val) && decide (c.val ≤ 122) || decide (48 ≤ c.val) &&
              decide (c.val ≤ 57)) := rfl
        have hval : c.val.toNat = c.toNat := rfl
        rw [hranges] at hname
        simp only [Bool.or_eq_true, Bool.and_eq_true, decide_eq_true_eq, UInt32.le_iff_toNat_le,
          hval, UInt32.reduceToNat] at hname
        omega
      · decide
    show Munch.isBlank c = false
    simp only [Munch.isBlank, Bool.or_eq_false_iff, Bool.and_eq_false_iff, decide_eq_false_iff_not]
    omega

namespace IsIdentifier

variable {name : Text}

theorem inName (h : IsIdentifier name) : ∀ s ∈ name, s.inName = true := by
  cases name with
  | nil => cases h
  | cons s rest => exact List.forall_mem_cons.mpr ⟨inName_of_startsName h.1, h.2⟩

/-- Symbols with a meaning in patterns are in no identifier. -/
theorem not_mem (h : IsIdentifier name) {s : Symbol} (hs : s.inName = false) : s ∉ name :=
  fun hmem => Bool.false_ne_true (hs.symm.trans (h.inName s hmem))

/-- An identifier is a word. -/
theorem isWord (h : IsIdentifier name) : name.IsWord := by
  refine ⟨?_, fun s hs => Symbol.isBlank_of_inName (h.inName s hs)⟩
  rintro rfl
  exact h

end IsIdentifier

end Munch
