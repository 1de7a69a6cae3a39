import Munch.Proofs.Pattern.ClassName

/-!
# Classes in brackets, as they are read

A class in brackets consists of items: names like `[:alpha:]`, single code points, ranges of two of
them, and escapes that stand for a whole class. The readers say what follows an item. Here is what
they take.

* `ItemText rest item`: the text is an item of a class, if `rest` follows it.
* `itemsOf fold whole`: the texts of the items of the class at the front of `whole`.
* `ItemTexts rest first items`: the texts are the items of a class that ends in front of `rest`.

Results:
* `readEscape_ok`, `readUnicodeClass_ok`: the readers of escapes take escapes.
* `readItem_ok`: the reader of items takes an item.
* **`readClass_ok`**: a class that can be read consists of its items and of the bracket behind them.
-/

namespace Munch.Pattern

/-- The text is an item of a class, if `rest` follows it. A single bracket with a colon behind it is
one if no name ends in what follows. -/
inductive ItemText (rest : Text) : Text → Prop
  | name {name : Text} (hname : ∀ x ∈ name, Mute x) :
      ItemText rest (.char '[' :: .char ':' :: (name ++ [.char ':', .char ']']))
  | single {g : Text} (hg : Glyph g)
      (hname : ∀ t, g ++ rest = .char '[' :: .char ':' :: t → cutColon t = none) : ItemText rest g
  | range {lo hi : Text} (hlo : Glyph lo) (hhi : Glyph hi) (hclose : hi ≠ [.char ']'])
      (hfirst : lo = [.char ']'] → hi ≠ [.char '[']) : ItemText rest (lo ++ .char '-' :: hi)

section

variable {fold : Bool} {whole t rest name : Text} {s : CharSet} {n : Nat}

/-! ## Points and escapes -/

theorem exists_of_bind_ok {α β : Type} {x : Reading α} {f : α → Reading β} {b : β}
    (h : x >>= f = .ok b) : ∃ a, x = .ok a ∧ f a = .ok b := by
  cases x with
  | error e => cases h
  | ok a => exact ⟨a, rfl, h⟩

theorem readPoint_ok (h : readPoint t = .ok (n, rest)) (ht : t ≠ []) :
    ∃ c : Char, t = .char c :: rest ∧ n = c.toNat := by
  unfold readPoint at h
  split at h
  · exact absurd rfl ht
  next c t =>
    cases h
    exact ⟨c, rfl, rfl⟩
  · cases h

/-- At the end of a text nothing is read. -/
theorem readPoint_skips (h : readPoint t = .ok (n, rest)) :
    t = [] ∧ rest = [] ∧ n = 0xFFFD ∨ ∃ c : Char, t = .char c :: rest ∧ n = c.toNat := by
  by_cases ht : t = []
  · rw [ht] at h
    cases h
    exact .inl ⟨ht, rfl, rfl⟩
  · exact .inr (readPoint_ok h ht)

/-- A character is mute if it has a property that brackets and backslashes do not have. -/
theorem mute_of {p : Char → Prop} {c : Char} (hp : ¬p ']' ∧ ¬p '[' ∧ ¬p '\\') (hc : p c) :
    Mute (.char c) := by
  obtain ⟨hclose, hopen, hback⟩ := hp
  refine ⟨?_, ?_, ?_⟩
  · rintro ⟨⟩
    exact hclose hc
  · rintro ⟨⟩
    exact hopen hc
  · rintro ⟨⟩
    exact hback hc

theorem mute_of_hexValue? {c : Char} {v : Nat} (h : hexValue? c.toNat = some v) : Mute (.char c) :=
  mute_of (p := fun c => (hexValue? c.toNat).isSome) (by decide) (Option.isSome_of_eq_some h)

/-- The front of the text up to `rest` is mute. -/
def Skips (t rest : Text) : Prop := ∃ front, t = front ++ rest ∧ ∀ x ∈ front, Mute x

theorem Skips.refl (t : Text) : Skips t t := ⟨[], rfl, nofun⟩

theorem Skips.cons {x : Symbol} (hx : Mute x) (h : Skips t rest) : Skips (x :: t) rest := by
  obtain ⟨front, rfl, hfront⟩ := h
  exact ⟨x :: front, rfl, List.forall_mem_cons.mpr ⟨hx, hfront⟩⟩

theorem readOctal_skips (count value : Nat) (t : Text) : Skips t (readOctal count value t).2 := by
  fun_induction readOctal count value t with
  | case1 => exact .refl _
  | case2 count value c t hc ih =>
    exact ih.cons (mute_of (p := fun c => '0' ≤ c ∧ c ≤ '7') (by decide) hc)
  | case3 => exact .refl _
  | case4 => exact .refl _

theorem readBraced_skips {found : Bool} {value : Nat}
    (h : readBraced whole found value t = .ok (n, rest)) : Skips t rest := by
  fun_induction readBraced whole found value t with
  | case1 => cases h
  | case2 => cases h
  | case3 value c t hc =>
    cases h
    exact (Skips.refl _).cons (mute_of (p := fun c => c.toNat = 125) (by decide) hc)
  | case4 => cases h
  | case5 => cases h
  | case6 => cases h
  | case7 found value c t hc v hv hle ih => exact (ih h).cons (mute_of_hexValue? hv)

theorem readHex_skips (h : readHex whole t = .ok (n, rest)) : Skips t rest := by
  cases t with
  | nil => cases h
  | cons s t =>
    obtain ⟨⟨c, t'⟩, hc, h⟩ := exists_of_bind_ok (x := readPoint (s :: t)) h
    obtain ⟨c, heq, rfl⟩ := readPoint_ok hc (List.cons_ne_nil _ _)
    obtain ⟨rfl, rfl⟩ := List.cons.inj heq
    dsimp only at h
    split at h
    next hbrace =>
      exact (readBraced_skips h).cons (mute_of (p := fun c => c.toNat = 123) (by decide) hbrace)
    · obtain ⟨⟨d, t'⟩, hd, h⟩ := exists_of_bind_ok h
      dsimp only at h
      split at h
      next x y hx hy =>
        cases h
        refine Skips.cons (mute_of_hexValue? hx) ?_
        obtain ⟨rfl, rfl, rfl⟩ | ⟨d, rfl, rfl⟩ := readPoint_skips hd
        · exact absurd (Option.isSome_of_eq_some hy) (by decide)
        · exact (Skips.refl _).cons (mute_of_hexValue? hy)
      · cases h

/-- An escape consists of a backslash, a symbol, and mute symbols. -/
theorem readEscape_ok (h : readEscape (.char '\\' :: t) = .ok (n, rest)) :
    ∃ s u, t = s :: u ∧ Skips u rest := by
  cases t with
  | nil => cases h
  | cons s t =>
    obtain ⟨⟨c, u⟩, hc, h⟩ := exists_of_bind_ok (x := readPoint (s :: t)) h
    obtain ⟨c, heq, rfl⟩ := readPoint_ok hc (List.cons_ne_nil _ _)
    obtain ⟨rfl, rfl⟩ := List.cons.inj heq
    refine ⟨_, t, rfl, ?_⟩
    dsimp only at h
    split at h
    · obtain rfl : (readOctal 2 0 t).2 = rest := congrArg Prod.snd (Except.ok.inj h)
      exact readOctal_skips _ _ _
    · split at h
      · obtain rfl : (readOctal 2 (c.toNat - 48) t).2 = rest := congrArg Prod.snd (Except.ok.inj h)
        exact readOctal_skips _ _ _
      · split at h
        · exact readHex_skips h
        · split at h
          · cases h
            exact .refl _
          · split at h
            · cases h
              exact .refl _
            · cases h

/-- The text that a reader takes in front of `rest` is a symbol or an escape. -/
def TakesGlyph (t rest : Text) : Prop := ∃ g, t = g ++ rest ∧ Glyph g

theorem TakesGlyph.escape (s : Symbol) (h : Skips t rest) :
    TakesGlyph (.char '\\' :: s :: t) rest := by
  obtain ⟨more, rfl, hmore⟩ := h
  exact ⟨.char '\\' :: s :: more, rfl, .escape s hmore⟩

/-- A name in braces. -/
theorem skips_braced {t : Text} (h : cutAt '\x7d' (.char '\x7b' :: t) = some (name, rest))
    (hname : ∀ x ∈ name.drop 1, Mute x) : Skips (.char '\x7b' :: t) rest := by
  have heq := cutAt_eq h
  cases name with
  | nil => exact absurd (List.cons.inj heq).1 (by decide)
  | cons x name =>
    obtain ⟨rfl, rfl⟩ := List.cons.inj heq
    refine Skips.cons (by decide) ⟨name ++ [.char '\x7d'], List.append_cons _ _ _, ?_⟩
    exact List.forall_mem_append.mpr ⟨hname, by decide⟩

/-- The reader of a Unicode class takes an escape. -/
theorem readUnicodeClass_ok (h : readUnicodeClass fold whole = .ok (some (s, rest))) :
    TakesGlyph whole rest := by
  unfold readUnicodeClass at h
  split at h
  next p t =>
    split at h
    · obtain ⟨⟨c, u⟩, hc, h⟩ := exists_of_bind_ok h
      dsimp only at h
      refine .escape _ ?_
      split at h
      next hbrace =>
        obtain ⟨-, -, rfl⟩ | ⟨c, rfl, rfl⟩ := readPoint_skips hc
        · exact absurd hbrace (by decide)
        obtain rfl : c = '\x7b' := Char.toNat_inj.mp hbrace
        split at h
        · split at h <;> cases h
        next name rest' hcut =>
          split at h
          · cases h
          · obtain ⟨set, hset, h⟩ := exists_of_bind_ok h
            cases h
            exact skips_braced hcut (mute_of_namedUnicode hset)
      · obtain ⟨set, hset, h⟩ := exists_of_bind_ok h
        cases h
        obtain ⟨rfl, rfl, -⟩ | ⟨c, rfl, -⟩ := readPoint_skips hc
        · exact .refl _
        · have hmute := mute_of_namedUnicode hset
          rw [← List.singleton_append, excerpt_append] at hmute
          exact (Skips.refl _).cons (hmute _ (List.mem_singleton_self _))
    · cases h
  · cases h

theorem readLetterClass_some (h : readLetterClass fold t = some (s, rest)) : TakesGlyph t rest := by
  unfold readLetterClass at h
  split at h
  next c t =>
    obtain ⟨set, -, heq⟩ := Option.map_eq_some_iff.mp h
    cases heq
    exact .escape _ (.refl _)
  · cases h

/-! ## Items -/

/-- A point is a symbol or an escape. If it is a symbol, its value is known. -/
theorem readMember_ok (h : readMember whole t = .ok (n, rest)) :
    ∃ g, t = g ++ rest ∧ Glyph g ∧ ∀ c : Char, g = [.char c] → n = c.toNat := by
  unfold readMember at h
  split at h
  · cases h
  next t =>
    obtain ⟨s, u, rfl, hskips⟩ := readEscape_ok h
    obtain ⟨g, heq, hg⟩ := TakesGlyph.escape s hskips
    refine ⟨g, heq, hg, ?_⟩
    rintro c rfl
    cases hg with
    | symbol hs => exact absurd (List.cons.inj heq).1.symm hs
  next hne hescape =>
    obtain ⟨c, rfl, rfl⟩ := readPoint_ok h hne
    refine ⟨[.char c], rfl, .symbol ?_, ?_⟩
    · rintro ⟨⟩
      exact hescape _ rfl
    · rintro d ⟨⟩
      rfl

theorem readAsciiClass_none (h : readAsciiClass fold whole = .ok none) :
    ∀ t, whole = .char '[' :: .char ':' :: t → cutColon t = none := by
  rintro t rfl
  cases hcut : cutColon t with
  | none => rfl
  | some cut =>
    simp only [readAsciiClass, hcut] at h
    split at h <;> cases h

theorem readAsciiClass_some (h : readAsciiClass fold whole = .ok (some (s, rest))) :
    ∃ item, whole = item ++ rest ∧ ItemText rest item := by
  unfold readAsciiClass at h
  split at h
  next t =>
    split at h
    · cases h
    next name rest' hcut =>
      dsimp only at h
      split at h
      next set hset =>
        cases h
        rw [Option.ite_none_left_eq_some] at hset
        have hmute := mute_of_cutCaret (mute_of_shown (mute_of_asciiClass? hset.2))
        rw [cutColon_eq hcut]
        exact ⟨_, by simp, .name hmute⟩
      · cases h
  · cases h

theorem readRange_ok {hi : Nat} (h : readRange whole t = .ok (n, hi, rest))
    (hname : ∀ u, t = .char '[' :: .char ':' :: u → cutColon u = none) :
    ∃ item, t = item ++ rest ∧ ItemText rest item := by
  obtain ⟨⟨lo, u⟩, hlo, h⟩ := exists_of_bind_ok h
  obtain ⟨g, rfl, hg, hvalue⟩ := readMember_ok hlo
  dsimp only at h
  split at h
  next next tail =>
    split at h
    · cases h
      exact ⟨g, rfl, .single hg hname⟩
    next hclose =>
      obtain ⟨⟨hi', u⟩, hhi, h⟩ := exists_of_bind_ok h
      obtain ⟨k, heq, hk, hvalue'⟩ := readMember_ok hhi
      dsimp only at h
      split at h
      · cases h
      next hle =>
        cases h
        rw [heq]
        refine ⟨g ++ .char '-' :: k, by simp, .range hg hk ?_ ?_⟩
        · rintro rfl
          obtain ⟨rfl, -⟩ := List.cons.inj heq
          exact hclose rfl
        · rintro rfl rfl
          rw [hvalue _ rfl, hvalue' _ rfl] at hle
          exact hle (by decide)
  · cases h
    exact ⟨g, rfl, .single hg hname⟩

/-- **What the reader of items takes is an item.** -/
theorem readItem_ok (h : readItem fold whole t = .ok (s, rest)) :
    ∃ item, t = item ++ rest ∧ ItemText rest item := by
  obtain ⟨ascii, hascii, h⟩ := exists_of_bind_ok h
  cases ascii with
  | some found =>
    cases h
    exact readAsciiClass_some hascii
  | none =>
    have hname := readAsciiClass_none hascii
    have hsingle {t : Text} (hname : ∀ u, t = .char '[' :: .char ':' :: u → cutColon u = none)
        (h : TakesGlyph t rest) : ∃ item, t = item ++ rest ∧ ItemText rest item := by
      obtain ⟨g, rfl, hg⟩ := h
      exact ⟨g, rfl, .single hg hname⟩
    obtain ⟨unicode, hunicode, h⟩ := exists_of_bind_ok h
    cases unicode with
    | some found =>
      cases h
      exact hsingle hname (readUnicodeClass_ok hunicode)
    | none =>
      dsimp only at h
      split at h
      next found hletter =>
        cases h
        exact hsingle hname (readLetterClass_some hletter)
      · obtain ⟨⟨lo, hi, u⟩, hrange, h⟩ := exists_of_bind_ok h
        cases h
        exact readRange_ok hrange hname

/-! ## Classes -/

/-- The texts of the items in front of the bracket that closes a class, in the order of reading. -/
def itemsFrom (fold : Bool) (whole : Text) : (fuel : Nat) → (first : Bool) → Text → List Text
  | 0, _, _ => []
  | fuel + 1, first, t =>
    match t, first with
    | .char ']' :: _, false => []
    | t, _ =>
      match readItem fold whole t with
      | .error _ => []
      | .ok (_, rest) => excerpt t rest :: itemsFrom fold whole fuel false rest

/-- The texts of the items of the class in brackets at the front of a text. -/
def itemsOf (fold : Bool) (whole : Text) : List Text :=
  let (_, t) := cutCaret (whole.drop 1)
  itemsFrom fold whole (t.length + 1) true t

/-- These are the items of a class that ends in front of `rest`. Only the first one may start with
the bracket that closes the class, and if there has to be a first one then there is. -/
inductive ItemTexts (rest : Text) : (first : Bool) → List Text → Prop
  | nil : ItemTexts rest false []
  | cons {first : Bool} {item : Text} {items : List Text}
      (hitem : ItemText (items.flatten ++ .char ']' :: rest) item)
      (hfirst : first = true ∨ item.head? ≠ some (.char ']')) (h : ItemTexts rest false items) :
      ItemTexts rest first (item :: items)

theorem readItems_ok {fuel : Nat} {first : Bool} {set : CharSet}
    (h : readItems fold whole fuel first set t = .ok (s, rest)) :
    t = (itemsFrom fold whole fuel first t).flatten ++ .char ']' :: rest ∧
      ItemTexts rest first (itemsFrom fold whole fuel first t) := by
  induction fuel generalizing first set t with
  | zero => cases h
  | succ fuel ih =>
    unfold readItems at h
    unfold itemsFrom
    split at h
    next t =>
      cases h
      exact ⟨rfl, .nil⟩
    next t _ hclose =>
      obtain ⟨⟨set', u⟩, hitem, hmore⟩ := exists_of_bind_ok h
      obtain ⟨item, rfl, htext⟩ := readItem_ok hitem
      simp only [hitem, excerpt_append]
      obtain ⟨hu, hitems⟩ := ih hmore
      rw [hu] at htext
      refine ⟨?_, .cons htext ?_ hitems⟩
      · rw [List.flatten_cons, List.append_assoc, ← hu]
      · cases first with
        | true => exact .inl rfl
        | false =>
          refine .inr fun hhead => ?_
          obtain ⟨tail, rfl⟩ := List.head?_eq_some_iff.mp hhead
          exact hclose _ rfl rfl

/-- **A class that can be read consists of its items and of the bracket behind them.** A sign may
stand in front. -/
theorem readClass_ok (h : readClass fold whole = .ok (s, rest)) :
    (cutCaret (whole.drop 1)).2 = (itemsOf fold whole).flatten ++ .char ']' :: rest ∧
      ItemTexts rest true (itemsOf fold whole) := by
  obtain ⟨⟨set, u⟩, hitems, h⟩ := exists_of_bind_ok h
  cases h
  exact readItems_ok hitems

end

end Munch.Pattern
