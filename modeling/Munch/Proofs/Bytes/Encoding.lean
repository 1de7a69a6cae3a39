import Mathlib.Data.List.Basic
import Munch.Bytes.Matcher

/-!
# Encoded runes

Each rune of an input is encoded by a first byte and at most three more, and is decoded from them,
whatever comes behind. An encoding that is cut short is no encoding: each of its bytes counts as a
rune then.

* `Encoding c a tail`: the bytes `a :: tail` are the encoding of the character `c`.

Results:
* `encodePoint_char`: every character has its encoding.
* `Bytes.firstSize_encode`: the size of the first rune of encoded runes.
* `Bytes.runeCount_encode_append`: encoded runes count as themselves, before any bytes.
* `Bytes.runeCount_part`: bytes at the front of an encoding count one by one.
* **`Bytes.Cut.runeCount`**: how many runes are counted in bytes at the front of encoded runes.
-/

namespace Munch

/-! ## Single characters -/

/-- The bytes are the encoding of the character: they are decoded to it, and nothing shorter is
decoded. -/
structure Encoding (c : Char) (a : UInt8) (tail : List UInt8) : Prop where
  length_le : tail.length ≤ 3
  whole : ∀ rest, decodeFirst a (tail ++ rest) = (.char c, tail.length + 1)
  cut : ∀ part : List UInt8, part.length < tail.length → decodeFirst a part = (.stray a, 1)
  /-- the other bytes begin no encoding -/
  inner : ∀ b ∈ tail, 0x80 ≤ b.toNat ∧ b.toNat ≤ 0xBF

theorem toNat_toUInt8 {n : Nat} (h : n < 256) : n.toUInt8.toNat = n := by
  rw [Nat.toUInt8_eq, UInt8.toNat_ofNat_of_lt' h]

theorem within_iff {lo hi : Nat} {b : UInt8} :
    within lo hi b = true ↔ lo ≤ b.toNat ∧ b.toNat ≤ hi := by
  simp [within]

/-- A byte that continues an encoding begins none. -/
theorem decodeFirst_inner {b : UInt8} (h : 0x80 ≤ b.toNat ∧ b.toNat ≤ 0xBF) (rest : List UInt8) :
    decodeFirst b rest = (.stray b, 1) := by
  have hnone : leadBounds b = none := by
    unfold leadBounds
    simp only
    rw [if_pos (by omega)]
  unfold decodeFirst
  rw [if_neg (by omega), hnone]

/-- A byte that begins an encoding is not enough for it, and neither are bytes that are too few. -/
theorem decodeFirst_cut {a : UInt8} {lo hi size : Nat} {part : List UInt8} (h : 0x80 ≤ a.toNat)
    (hlead : leadBounds a = some (lo, hi, size)) (hshort : part.length + 1 < size) :
    decodeFirst a part = (.stray a, 1) := by
  unfold decodeFirst
  rw [if_neg (by omega), hlead]
  split
  case h_4 => rfl
  -- with as many bytes as they should be there would be no cut
  all_goals
    next hsize =>
      cases hsize
      simp only [List.length_cons] at hshort
      omega

section

variable {a b : UInt8}

theorem leadBounds_two (h : 0xC2 ≤ a.toNat) (h' : a.toNat < 0xE0) :
    leadBounds a = some (0x80, 0xBF, 2) := by
  unfold leadBounds
  simp only
  rw [if_neg (by omega), if_pos h']

/-- Of three bytes the second one is bounded more closely behind two of the first bytes: there are
no longer encodings than necessary, and no surrogates. -/
theorem leadBounds_three (h : 0xE0 ≤ a.toNat) (h' : a.toNat < 0xF0)
    (hb : 0x80 ≤ b.toNat ∧ b.toNat ≤ 0xBF) (hlow : a.toNat = 0xE0 → 0xA0 ≤ b.toNat)
    (hhigh : a.toNat = 0xED → b.toNat ≤ 0x9F) :
    ∃ lo hi, leadBounds a = some (lo, hi, 3) ∧ within lo hi b = true := by
  simp only [within_iff]
  unfold leadBounds
  simp only
  rw [if_neg (by omega), if_neg (by omega)]
  by_cases h₁ : a.toNat = 0xE0
  · rw [if_pos h₁]
    exact ⟨_, _, rfl, hlow h₁, hb.2⟩
  · rw [if_neg h₁]
    by_cases h₂ : a.toNat = 0xED
    · rw [if_pos h₂]
      exact ⟨_, _, rfl, hb.1, hhigh h₂⟩
    · rw [if_neg h₂, if_pos h']
      exact ⟨_, _, rfl, hb⟩

/-- Of four bytes the second one is bounded more closely, too: nothing lies beyond the last code
point. -/
theorem leadBounds_four (h : 0xF0 ≤ a.toNat) (h' : a.toNat ≤ 0xF4)
    (hb : 0x80 ≤ b.toNat ∧ b.toNat ≤ 0xBF) (hlow : a.toNat = 0xF0 → 0x90 ≤ b.toNat)
    (hhigh : a.toNat = 0xF4 → b.toNat ≤ 0x8F) :
    ∃ lo hi, leadBounds a = some (lo, hi, 4) ∧ within lo hi b = true := by
  simp only [within_iff]
  unfold leadBounds
  simp only
  rw [if_neg (by omega), if_neg (by omega), if_neg (by omega), if_neg (by omega), if_neg (by omega)]
  by_cases h₁ : a.toNat = 0xF0
  · rw [if_pos h₁]
    exact ⟨_, _, rfl, hlow h₁, hb.2⟩
  · rw [if_neg h₁]
    by_cases h₂ : a.toNat < 0xF4
    · rw [if_pos h₂]
      exact ⟨_, _, rfl, hb⟩
    · rw [if_neg h₂, if_pos (by omega)]
      exact ⟨_, _, rfl, hb.1, hhigh (by omega)⟩

end

section

variable {c : Char}

theorem encoding_one (h : c.toNat < 0x80) : Encoding c c.toNat.toUInt8 [] := by
  have ha := toNat_toUInt8 (show c.toNat < 256 by omega)
  refine ⟨Nat.zero_le _, fun rest => ?_, fun part hpart => ?_, by simp⟩
  · unfold decodeFirst
    rw [ha, if_pos h, Char.ofNat_toNat]
    rfl
  · exact absurd hpart (Nat.not_lt_zero _)

theorem encoding_two (h : 0x80 ≤ c.toNat) (h' : c.toNat < 0x800) :
    Encoding c (0xC0 + c.toNat / 0x40).toUInt8 [(0x80 + c.toNat % 0x40).toUInt8] := by
  have ha := toNat_toUInt8 (show 0xC0 + c.toNat / 0x40 < 256 by omega)
  have hb := toNat_toUInt8 (show 0x80 + c.toNat % 0x40 < 256 by omega)
  generalize (0xC0 + c.toNat / 0x40).toUInt8 = a at ha ⊢
  generalize (0x80 + c.toNat % 0x40).toUInt8 = b at hb ⊢
  have hlead : leadBounds a = some (0x80, 0xBF, 2) := leadBounds_two (by omega) (by omega)
  have hbound : within 0x80 0xBF b = true := within_iff.mpr (by omega)
  have hpoint : a.toNat % 0x20 * 0x40 + payload b = c.toNat := by
    unfold payload
    omega
  refine ⟨by simp, fun rest => ?_, fun part hpart => ?_, ?_⟩
  · unfold decodeFirst
    rw [List.singleton_append, if_neg (by omega), hlead]
    simp only [hbound, if_true, hpoint, Char.ofNat_toNat]
    rfl
  · exact decodeFirst_cut (by omega) hlead (Nat.succ_lt_succ hpart)
  · simp only [List.mem_singleton, forall_eq]
    omega

theorem encoding_three (h : 0x800 ≤ c.toNat) (h' : c.toNat < 0x10000)
    (hvalid : c.toNat < 0xD800 ∨ 0xE000 ≤ c.toNat) :
    Encoding c (0xE0 + c.toNat / 0x1000).toUInt8
      [(0x80 + c.toNat / 0x40 % 0x40).toUInt8, (0x80 + c.toNat % 0x40).toUInt8] := by
  have ha := toNat_toUInt8 (show 0xE0 + c.toNat / 0x1000 < 256 by omega)
  have hb := toNat_toUInt8 (show 0x80 + c.toNat / 0x40 % 0x40 < 256 by omega)
  have hd := toNat_toUInt8 (show 0x80 + c.toNat % 0x40 < 256 by omega)
  generalize (0xE0 + c.toNat / 0x1000).toUInt8 = a at ha ⊢
  generalize (0x80 + c.toNat / 0x40 % 0x40).toUInt8 = b at hb ⊢
  generalize (0x80 + c.toNat % 0x40).toUInt8 = d at hd ⊢
  obtain ⟨lo, hi, hlead, hbound⟩ :=
    leadBounds_three (a := a) (b := b) (by omega) (by omega) (by omega) (by omega) (by omega)
  have hbound' : within 0x80 0xBF d = true := within_iff.mpr (by omega)
  have hpoint : a.toNat % 0x10 * 0x1000 + payload b * 0x40 + payload d = c.toNat := by
    unfold payload
    omega
  refine ⟨by simp, fun rest => ?_, fun part hpart => ?_, ?_⟩
  · unfold decodeFirst
    rw [List.cons_append, List.singleton_append, if_neg (by omega), hlead]
    simp only [hbound, hbound', Bool.and_true, if_true, hpoint, Char.ofNat_toNat]
    rfl
  · exact decodeFirst_cut (by omega) hlead (Nat.succ_lt_succ hpart)
  · simp only [List.mem_cons, List.not_mem_nil, or_false, forall_eq_or_imp, forall_eq]
    omega

theorem encoding_four (h : 0x10000 ≤ c.toNat) (h' : c.toNat < 0x110000) :
    Encoding c (0xF0 + c.toNat / 0x40000).toUInt8
      [(0x80 + c.toNat / 0x1000 % 0x40).toUInt8, (0x80 + c.toNat / 0x40 % 0x40).toUInt8,
        (0x80 + c.toNat % 0x40).toUInt8] := by
  have ha := toNat_toUInt8 (show 0xF0 + c.toNat / 0x40000 < 256 by omega)
  have hb := toNat_toUInt8 (show 0x80 + c.toNat / 0x1000 % 0x40 < 256 by omega)
  have hd := toNat_toUInt8 (show 0x80 + c.toNat / 0x40 % 0x40 < 256 by omega)
  have he := toNat_toUInt8 (show 0x80 + c.toNat % 0x40 < 256 by omega)
  generalize (0xF0 + c.toNat / 0x40000).toUInt8 = a at ha ⊢
  generalize (0x80 + c.toNat / 0x1000 % 0x40).toUInt8 = b at hb ⊢
  generalize (0x80 + c.toNat / 0x40 % 0x40).toUInt8 = d at hd ⊢
  generalize (0x80 + c.toNat % 0x40).toUInt8 = e at he ⊢
  obtain ⟨lo, hi, hlead, hbound⟩ :=
    leadBounds_four (a := a) (b := b) (by omega) (by omega) (by omega) (by omega) (by omega)
  have hbound' : within 0x80 0xBF d = true := within_iff.mpr (by omega)
  have hbound'' : within 0x80 0xBF e = true := within_iff.mpr (by omega)
  have hpoint : a.toNat % 8 * 0x40000 + payload b * 0x1000 + payload d * 0x40 + payload e =
      c.toNat := by
    unfold payload
    omega
  refine ⟨by simp, fun rest => ?_, fun part hpart => ?_, ?_⟩
  · unfold decodeFirst
    rw [List.cons_append, List.cons_append, List.singleton_append, if_neg (by omega), hlead]
    simp only [hbound, hbound', hbound'', Bool.and_true, if_true, hpoint, Char.ofNat_toNat]
    rfl
  · exact decodeFirst_cut (by omega) hlead (Nat.succ_lt_succ hpart)
  · simp only [List.mem_cons, List.not_mem_nil, or_false, forall_eq_or_imp, forall_eq]
    omega

end

/-- **Every character has its encoding.** -/
theorem encodePoint_char (c : Char) :
    ∃ a tail, encodePoint c.toNat = a :: tail ∧ Encoding c a tail := by
  have hvalid : c.toNat < 0xD800 ∨ 0xDFFF < c.toNat ∧ c.toNat < 0x110000 := c.valid
  unfold encodePoint
  by_cases h₁ : c.toNat < 0x80
  · rw [if_pos h₁]
    exact ⟨_, _, rfl, encoding_one h₁⟩
  · rw [if_neg h₁]
    by_cases h₂ : c.toNat < 0x800
    · rw [if_pos h₂]
      exact ⟨_, _, rfl, encoding_two (by omega) h₂⟩
    · rw [if_neg h₂]
      by_cases h₃ : c.toNat < 0x10000
      · rw [if_pos h₃]
        exact ⟨_, _, rfl, encoding_three (by omega) h₃ (by omega)⟩
      · rw [if_neg h₃]
        exact ⟨_, _, rfl, encoding_four (by omega) (by omega)⟩

/-! ## Decoding -/

/-- More fuel than there are bytes decodes nothing else. -/
theorem decode_eq {fuel fuel' : Nat} {bytes : List UInt8} (h : bytes.length ≤ fuel)
    (h' : bytes.length ≤ fuel') : decode fuel bytes = decode fuel' bytes := by
  induction fuel generalizing fuel' bytes with
  | zero =>
    obtain rfl := List.eq_nil_of_length_eq_zero (Nat.le_zero.mp h)
    cases fuel' <;> rfl
  | succ fuel ih =>
    cases bytes with
    | nil => cases fuel' <;> rfl
    | cons a rest =>
      obtain _ | fuel' := fuel'
      · exact absurd h' (Nat.not_succ_le_zero _)
      · rw [List.length_cons] at h h'
        rw [decode, decode]
        simp only [List.cons.injEq, true_and]
        apply ih <;> rw [List.length_drop] <;> omega

theorem Text.ofBytes_cons (a : UInt8) (rest : List UInt8) :
    Text.ofBytes (a :: rest) =
      (decodeFirst a rest).1 :: Text.ofBytes (rest.drop ((decodeFirst a rest).2 - 1)) := by
  unfold Text.ofBytes
  rw [List.length_cons, decode]
  simp only [List.cons.injEq, true_and]
  exact decode_eq (by rw [List.length_drop]; omega) (Nat.le_refl _)

namespace Bytes

theorem runeCount_cons (a : UInt8) (rest : List UInt8) :
    runeCount (a :: rest) = runeCount (rest.drop ((decodeFirst a rest).2 - 1)) + 1 := by
  rw [runeCount, Text.ofBytes_cons, List.length_cons]
  rfl

/-! ## Encoded runes -/

theorem encode_append (rs rs' : List Rune) : encode (rs ++ rs') = encode rs ++ encode rs' := by
  simp [encode, Text.ofRunes, Text.toBytes]

theorem encode_cons (r : Rune) (rs : List Rune) : encode (r :: rs) = encode [r] ++ encode rs :=
  encode_append [r] rs

/-- Each rune is encoded as a character. -/
theorem exists_encoding (r : Rune) : ∃ c a tail, encode [r] = a :: tail ∧ Encoding c a tail := by
  obtain ⟨a, tail, heq, henc⟩ := encodePoint_char (r.char?.getD replacement)
  refine ⟨_, a, tail, ?_, henc⟩
  rw [← heq]
  exact List.append_nil _

theorem length_encode_pos (r : Rune) : 0 < (encode [r]).length := by
  obtain ⟨c, a, tail, heq, -⟩ := exists_encoding r
  rw [heq]
  exact Nat.succ_pos _

/-- There are as many bytes as runes, or more. -/
theorem length_le_length_encode (rs : List Rune) : rs.length ≤ (encode rs).length := by
  induction rs with
  | nil => exact Nat.zero_le _
  | cons r rs ih =>
    have hpos := length_encode_pos r
    rw [encode_cons, List.length_append, List.length_cons]
    omega

/-- More runes take more bytes. -/
theorem length_encode_take_le (rs : List Rune) {k m : Nat} (h : k ≤ m) :
    (encode (rs.take k)).length ≤ (encode (rs.take m)).length := by
  have htake : rs.take k = (rs.take m).take k := by rw [List.take_take, Nat.min_eq_left h]
  rw [← List.take_append_drop k (rs.take m), encode_append, List.length_append, ← htake]
  exact Nat.le_add_right _ _

/-- Four bytes are enough to tell the size of the first rune. -/
theorem firstSize_encode (r : Rune) (rest : List UInt8) :
    firstSize ((encode [r] ++ rest).take 4) = (encode [r]).length := by
  obtain ⟨c, a, tail, heq, henc⟩ := exists_encoding r
  have hle := henc.length_le
  rw [heq, List.cons_append, List.take_succ_cons, List.take_append, List.take_of_length_le hle,
    firstSize, henc.whole, List.length_cons]

/-- **Encoded runes count as themselves**, before any bytes. -/
theorem runeCount_encode_append (rs : List Rune) (bytes : List UInt8) :
    runeCount (encode rs ++ bytes) = rs.length + runeCount bytes := by
  induction rs with
  | nil => exact (Nat.zero_add _).symm
  | cons r rs ih =>
    obtain ⟨c, a, tail, heq, henc⟩ := exists_encoding r
    rw [encode_cons, List.append_assoc, heq, List.cons_append, runeCount_cons, henc.whole,
      Nat.add_sub_cancel, List.drop_left, ih, List.length_cons]
    omega

theorem runeCount_encode (rs : List Rune) : runeCount (encode rs) = rs.length := by
  have h := runeCount_encode_append rs []
  rwa [List.append_nil] at h

theorem runeCount_inner {bytes : List UInt8} (h : ∀ b ∈ bytes, 0x80 ≤ b.toNat ∧ b.toNat ≤ 0xBF) :
    runeCount bytes = bytes.length := by
  induction bytes with
  | nil => rfl
  | cons b bytes ih =>
    rw [runeCount_cons, decodeFirst_inner (h b List.mem_cons_self), Nat.sub_self, List.drop_zero,
      ih fun b' hb' => h b' (List.mem_cons_of_mem _ hb'), List.length_cons]

/-- **Bytes at the front of an encoding that is cut short** count as a rune each. -/
theorem runeCount_part {r : Rune} {part : List UInt8} (hpart : part <+: encode [r])
    (hshort : part.length < (encode [r]).length) : runeCount part = part.length := by
  obtain ⟨c, a, tail, heq, henc⟩ := exists_encoding r
  rw [heq] at hpart hshort
  rcases part with _ | ⟨a', part⟩
  · rfl
  · obtain ⟨rfl, htail⟩ := List.cons_prefix_cons.mp hpart
    rw [runeCount_cons, henc.cut part (Nat.lt_of_succ_lt_succ hshort), Nat.sub_self, List.drop_zero,
      runeCount_inner fun b hb => henc.inner b (htail.subset hb), List.length_cons]

/-! ## Runes that are taken in part -/

/-- The first `size` bytes of encoded runes: `whole` runes, and `part` of the bytes of the next
one. -/
structure Cut (rs : List Rune) (size whole : Nat) (part : List UInt8) : Prop where
  whole_le : whole ≤ rs.length
  taken : (encode rs).take size = encode (rs.take whole) ++ part
  size : (encode (rs.take whole)).length + part.length = size
  short : part ≠ [] → ∃ r, rs[whole]? = some r ∧ part <+: encode [r] ∧
    part.length < (encode [r]).length

/-- Encoded runes can be cut anywhere. -/
theorem exists_cut {rs : List Rune} {size : Nat} (h : size ≤ (encode rs).length) :
    ∃ whole part, Cut rs size whole part := by
  induction rs generalizing size with
  | nil =>
    obtain rfl : size = 0 := Nat.le_zero.mp h
    exact ⟨0, [], (Nat.le_refl _), rfl, rfl, fun hne => absurd rfl hne⟩
  | cons r rs ih =>
    by_cases hr : size < (encode [r]).length
    · -- the cut is in the first rune
      refine ⟨0, (encode [r]).take size, Nat.zero_le _, ?_, ?_, fun _ =>
        ⟨r, rfl, List.take_prefix _ _, ?_⟩⟩
      · rw [encode_cons, List.take_append_of_le_length (Nat.le_of_lt hr)]
        rfl
      · show 0 + ((encode [r]).take size).length = size
        rw [List.length_take]
        omega
      · rw [List.length_take]
        omega
    · rw [encode_cons, List.length_append] at h
      have hrest : size - (encode [r]).length ≤ (encode rs).length := by omega
      obtain ⟨whole, part, hcut⟩ := ih hrest
      have hsize := hcut.size
      refine ⟨whole + 1, part, Nat.succ_le_succ hcut.whole_le, ?_, ?_, hcut.short⟩
      · rw [encode_cons, List.take_append, List.take_of_length_le (Nat.le_of_not_lt hr), hcut.taken,
          List.take_succ_cons, encode_cons r (rs.take whole), List.append_assoc]
      · rw [List.take_succ_cons, encode_cons, List.length_append]
        omega

namespace Cut

variable {rs : List Rune} {size whole : Nat} {part : List UInt8}

/-- The runes in the bytes: those that are there completely, and one for each byte more. -/
theorem runeCount (h : Cut rs size whole part) :
    Bytes.runeCount ((encode rs).take size) = whole + part.length := by
  have hpart : Bytes.runeCount part = part.length := by
    by_cases hne : part = []
    · rw [hne]
      rfl
    · obtain ⟨r, -, hprefix, hshort⟩ := h.short hne
      exact runeCount_part hprefix hshort
  rw [h.taken, runeCount_encode_append, hpart, List.length_take, Nat.min_eq_left h.whole_le]

/-- A cut in the middle of a rune is before the end of that rune. -/
theorem size_lt (h : Cut rs size whole part) (hne : part ≠ []) :
    size < (encode (rs.take (whole + 1))).length := by
  obtain ⟨r, hr, -, hshort⟩ := h.short hne
  obtain ⟨hlt, rfl⟩ := List.getElem?_eq_some_iff.mp hr
  have hsize := h.size
  rw [List.take_succ_eq_append_getElem hlt, encode_append, List.length_append]
  omega

/-- **A cut is between two runes** iff it leaves no part of one. -/
theorem between_iff (h : Cut rs size whole part) :
    (∃ k, (encode (rs.take k)).length = size) ↔ part = [] := by
  constructor
  · rintro ⟨k, hk⟩
    by_contra hne
    have hsize := h.size
    have hlt := h.size_lt hne
    have hpart := List.length_pos_of_ne_nil hne
    obtain hle | hle : k ≤ whole ∨ whole + 1 ≤ k := by omega
    all_goals
      have hmono := length_encode_take_le rs hle
      omega
  · rintro rfl
    exact ⟨whole, h.size⟩

end Cut

end Bytes

end Munch
