import Munch.Proofs.Bytes.Encoding
import Munch.Proofs.Contest

/-!
# Matching bytes

A scanner works on bytes, and its positions are counted in runes and in bytes. In ASCII there is no
difference: a rune is a byte.

* `InAscii rs`: the runes `rs` are ASCII.
* `Bytes.ByteText.Follows t R p`: the text is moved over the runes of the input `R`, up to the
  position `p`.

Results:
* `Bytes.encode_ascii` and `Bytes.runesOf_encode`: runes of ASCII are encoded one by one, and are
  the same as bytes.
* `Bytes.ByteText.Follows.drop_moveTo`: at a position of the input the text has the bytes of the
  rest before it.
* **`Bytes.ByteScanner.longest_spec`**: a scanner finds the longest match in the rest of its text.
-/

namespace Munch

/-- A rune of ASCII. -/
def Rune.IsAscii (r : Int) : Prop := 0 ≤ r ∧ r < 128

/-- Runes of ASCII. -/
def InAscii (rs : List Rune) : Prop := ∀ r ∈ rs, Rune.IsAscii r

theorem InAscii.sublist {rs rs' : List Rune} (h : InAscii rs) (hs : rs'.Sublist rs) : InAscii rs' :=
  fun r hr => h r (hs.subset hr)

/-- There is no rune in ASCII that marks an end. -/
theorem InAscii.usable {rs : List Rune} (h : InAscii rs) : usable rs = rs := by
  refine List.takeWhile_eq_self_iff.mpr fun r hr => ?_
  rw [bne_iff_ne]
  rintro rfl
  exact absurd (h _ hr).1 (by decide)

namespace Bytes

/-- The byte of a rune of ASCII. -/
def ofRune (r : Rune) : UInt8 := r.toNat.toUInt8

/-- Bytes as runes. -/
def runesOf (bytes : List UInt8) : List Rune := bytes.map fun b => (b.toNat : Rune)

theorem toNat_ofRune {r : Rune} (h : Rune.IsAscii r) : ((ofRune r).toNat : Rune) = r := by
  obtain ⟨h0, h1⟩ := h
  have hlt : r.toNat < 256 := by omega
  rw [ofRune, Nat.toUInt8_eq, UInt8.toNat_ofNat_of_lt' hlt]
  exact Int.toNat_of_nonneg h0

theorem encode_ascii {rs : List Rune} (h : InAscii rs) : encode rs = rs.map ofRune := by
  have hone (r : Rune) (hr : Rune.IsAscii r) :
      encodePoint (r.char?.getD replacement).toNat = [ofRune r] := by
    obtain ⟨h0, h1⟩ := hr
    have hlt : r.toNat < 128 := by omega
    have hchar : r.char? = some (Char.ofNat r.toNat) := by
      unfold Rune.char?
      rw [if_neg (Int.not_lt.mpr h0), if_pos (.inl (by omega))]
    have htoNat : (Char.ofNat r.toNat).toNat = r.toNat := by
      rw [Char.ofNat, dif_pos (.inl (by omega))]
      rfl
    rw [hchar, Option.getD_some, htoNat, encodePoint, if_pos hlt, ofRune]
  induction rs with
  | nil => rfl
  | cons r rs ih =>
    show encodePoint (r.char?.getD replacement).toNat ++ encode rs = _
    rw [hone r (h r List.mem_cons_self), ih fun r hr => h r (List.mem_cons_of_mem _ hr)]
    rfl

theorem runesOf_encode {rs : List Rune} (h : InAscii rs) : runesOf (encode rs) = rs := by
  rw [encode_ascii h, runesOf, List.map_map]
  exact (List.map_congr_left fun r hr => toNat_ofRune (h r hr)).trans (List.map_id rs)

/-! ## The text of an input -/

theorem ByteText.skip_bytes (n : Nat) (t : ByteText) : (t.skip n).bytes = t.bytes := by
  induction n generalizing t with
  | zero => rfl
  | succ n ih =>
    rw [skip]
    split
    · rw [ih]
    · rfl

/-- The text is that of the runes `rs`, at the byte behind the first `n` of them. -/
structure ByteText.Behind (t : ByteText) (rs : List Rune) (n : Nat) : Prop where
  bytes : t.bytes = (encode rs).toArray
  length_le : n ≤ rs.length
  bytePos : t.bytePos = (encode (rs.take n)).length

namespace ByteText.Behind

variable {t : ByteText} {rs : List Rune} {n : Nat}

theorem size (h : t.Behind rs n) : t.bytes.size = t.bytePos + (encode (rs.drop n)).length := by
  rw [h.bytes, h.bytePos, ← List.length_append, ← encode_append, List.take_append_drop]
  rfl

/-- What is left of the text are the bytes of the other runes. -/
theorem drop (h : t.Behind rs n) : t.bytes.toList.drop t.bytePos = encode (rs.drop n) := by
  have hsplit : encode rs = encode (rs.take n) ++ encode (rs.drop n) := by
    rw [← encode_append, List.take_append_drop]
  rw [h.bytes, h.bytePos, List.toList_toArray, hsplit, List.drop_left]

/-- A rune further the text is behind one more rune. -/
theorem next (h : t.Behind rs n) (hlt : t.bytePos < t.bytes.size) :
    n < rs.length ∧ ByteText.Behind { t with
      runePos := t.runePos + 1
      bytePos := t.bytePos + firstSize (t.bytes.extract t.bytePos (t.bytePos + 4)).toList } rs
        (n + 1) := by
  have hn : n < rs.length := by
    by_contra hnot
    have hsize := h.size
    rw [List.drop_eq_nil_of_le (Nat.le_of_not_lt hnot)] at hsize
    exact absurd hsize (Nat.ne_of_gt hlt)
  have hfirst : firstSize (t.bytes.extract t.bytePos (t.bytePos + 4)).toList =
      (encode [rs[n]]).length := by
    rw [Array.toList_extract, List.extract_eq_take_drop, h.drop, Nat.add_sub_cancel_left,
      List.drop_eq_getElem_cons hn, encode_cons, firstSize_encode]
  refine ⟨hn, h.bytes, hn, ?_⟩
  rw [hfirst, h.bytePos, ← List.length_append, ← encode_append, ← List.take_concat_get' rs n hn]

/-- Some runes further, or at its end, the text is behind so many more. -/
theorem skip (h : t.Behind rs n) (m : Nat) :
    ∃ j ≤ m, (t.skip m).Behind rs (n + j) ∧ (t.skip m).runePos = t.runePos + j ∧
      (j < m → n + j = rs.length) := by
  induction m generalizing t n with
  | zero => exact ⟨0, Nat.le_refl 0, h, rfl, fun hlt => absurd hlt (Nat.lt_irrefl 0)⟩
  | succ m ih =>
    rw [ByteText.skip]
    by_cases hlt : t.bytePos < t.bytes.size
    · rw [if_pos hlt]
      obtain ⟨-, hnext⟩ := h.next hlt
      obtain ⟨j, hj, hbehind, hrune, hend⟩ := ih hnext
      rw [show n + 1 + j = n + (j + 1) by omega] at hbehind hend
      refine ⟨j + 1, Nat.succ_le_succ hj, hbehind, ?_, fun hlt => hend (Nat.lt_of_succ_lt_succ hlt)⟩
      rw [hrune]
      show t.runePos + 1 + j = t.runePos + (j + 1)
      omega
    · rw [if_neg hlt]
      refine ⟨0, Nat.zero_le _, h, rfl, fun _ => ?_⟩
      have hsize := h.size
      have hleft := length_le_length_encode (rs.drop n)
      have hle := h.length_le
      rw [List.length_drop] at hleft
      omega

end ByteText.Behind

/-- The text is that of the input `R` from a rune on, at a rune that lies not behind the position
`p`. -/
def ByteText.Follows (t : ByteText) (R : List Rune) (p : Nat) : Prop :=
  ∃ k n, t.Behind (R.drop k) n ∧ t.runePos = k + n ∧ t.runePos ≤ p

namespace ByteText.Follows

variable {t : ByteText} {R : List Rune} {p : Nat}

theorem new (R : List Rune) (p : Nat) :
    (⟨(encode (R.drop p)).toArray, p, 0⟩ : ByteText).Follows R p :=
  ⟨p, 0, ⟨rfl, Nat.zero_le _, rfl⟩, rfl, Nat.le_refl p⟩

theorem mono (h : t.Follows R p) {q : Nat} (hq : p ≤ q) : t.Follows R q := by
  obtain ⟨k, n, hbehind, hrune, hle⟩ := h
  exact ⟨k, n, hbehind, hrune, hle.trans hq⟩

/-- The text starts with a rune of the input that lies not behind the position. -/
theorem bytes (h : t.Follows R p) : ∃ k ≤ p, t.bytes = (encode (R.drop k)).toArray := by
  obtain ⟨k, n, hbehind, hrune, hle⟩ := h
  exact ⟨k, by omega, hbehind.bytes⟩

theorem moveTo (h : t.Follows R p) : (t.moveTo p).Follows R p := by
  obtain ⟨k, n, hbehind, hrune, hle⟩ := h
  obtain ⟨j, hj, hmoved, hmovedRune, -⟩ := hbehind.skip (p - t.runePos)
  refine ⟨k, n + j, hmoved, ?_, ?_⟩ <;>
  · rw [ByteText.moveTo, hmovedRune]
    omega

/-- **The text is moved to the position itself**: what is left of it are the bytes of the rest of
the input. -/
theorem drop_moveTo (h : t.Follows R p) (hp : p ≤ R.length) :
    (t.moveTo p).bytes.toList.drop (t.moveTo p).bytePos = encode (R.drop p) ∧
      (t.moveTo p).bytes.size = (t.moveTo p).bytePos + (encode (R.drop p)).length := by
  obtain ⟨k, n, hbehind, hrune, hle⟩ := h
  obtain ⟨j, hj, hmoved, -, hend⟩ := hbehind.skip (p - t.runePos)
  have hreached : k + (n + j) = p := by
    by_contra hne
    have hlength := hend (by omega)
    rw [List.length_drop] at hlength
    omega
  unfold ByteText.moveTo
  rw [hmoved.drop, hmoved.size, List.drop_drop, hreached]
  exact ⟨rfl, rfl⟩

end ByteText.Follows

/-! ## The longest match -/

/-- Lanes stand where their programs do behind `n` runes of `rs`. -/
def Stand (rs : List Rune) (n : Nat) (lanes : List Lane) : Prop :=
  ∀ l ∈ lanes, l.threads = l.program.threadsAt (fun _ => nowhere) rs n

theorem Stand.advance {rs : List Rune} {n : Nat} {lanes : List Lane} (h : Stand rs n lanes)
    {b : UInt8} (hb : rs[n]? = some (b.toNat : Rune)) :
    Stand rs (n + 1) (lanes.map (Lane.advance b)) := by
  intro l hl
  obtain ⟨m, hm, rfl⟩ := List.mem_map.mp hl
  show m.program.advance m.threads _ _ = m.program.threadsAt _ rs (n + 1)
  rw [Program.threadsAt, hb, h m hm]

theorem Stand.findIdx? {rs : List Rune} {n : Nat} {lanes : List Lane} (h : Stand rs n lanes) :
    lanes.findIdx? Lane.accepts =
      (lanes.map (·.program)).findIdx? (·.acceptsAt (fun _ => nowhere) rs n) := by
  rw [List.findIdx?_map]
  exact findIdx?_congr fun l hl => congrArg l.program.accepts (h l hl)

/-- **A race over bytes finds the longest match.** The induction is on the fuel, which is the number
of bytes that are left. -/
theorem byteRace_spec (text : Array UInt8) (start length : Nat) (best : Option Hit)
    (lanes : List Lane) (fuel : Nat) (hfuel : start + length + fuel = text.size)
    (hstand : Stand (runesOf (text.toList.drop start)) length lanes)
    (hbest : best = longestUpTo (lanes.map (·.program)) (fun _ => nowhere)
      (runesOf (text.toList.drop start)) length) :
    byteRace text fuel (start + length) length best lanes =
      longestUpTo (lanes.map (·.program)) (fun _ => nowhere) (runesOf (text.toList.drop start))
        (length + fuel) := by
  induction fuel generalizing length best lanes with
  | zero => exact hbest
  | succ fuel ih =>
    have hlt : start + length < text.size := by omega
    have hrune : (runesOf (text.toList.drop start))[length]? =
        some (text[start + length].toNat : Rune) := by
      rw [runesOf, List.getElem?_map, List.getElem?_drop, Array.getElem?_toList,
        Array.getElem?_eq_getElem hlt]
      rfl
    rw [byteRace, Array.getElem?_eq_getElem hlt]
    simp only
    split
    · have hadvance := hstand.advance hrune
      have hprograms : (lanes.map (Lane.advance text[start + length])).map (·.program) =
          lanes.map (·.program) := by
        rw [List.map_map]
        rfl
      have hnext := ih (length + 1)
        (better ((lanes.map (Lane.advance text[start + length])).findIdx? Lane.accepts)
          (length + 1) best)
        (lanes.map (Lane.advance text[start + length])) (by omega) hadvance
        (by rw [hadvance.findIdx?, hprograms, longestUpTo, hbest])
      rw [hprograms] at hnext
      rw [show length + (fuel + 1) = length + 1 + fuel by omega, ← hnext]
      rfl
    next hidle =>
      rw [hbest]
      refine (longestUpTo_of_idle (fun p hp => ?_) (Nat.le_add_right length (fuel + 1))).symm
      obtain ⟨l, hl, rfl⟩ := List.mem_map.mp hp
      rw [← hstand l hl]
      exact eq_false_of_ne_true fun hw => hidle (List.any_eq_true.mpr ⟨l, hl, hw⟩)

/-- **A scanner finds the longest match in the rest of its text**, where all positions are alike. -/
theorem ByteScanner.longest_spec (s : ByteScanner) {pos : Nat} (hpos : pos ≤ s.text.size) :
    s.longest pos = longestUpTo s.programs (fun _ => nowhere) (runesOf (s.text.toList.drop pos))
      (runesOf (s.text.toList.drop pos)).length := by
  have hprograms : (s.programs.map fun p => (⟨p, p.begin nowhere⟩ : Lane)).map (·.program) =
      s.programs := by
    rw [List.map_map]
    exact List.map_id _
  have hstand : Stand (runesOf (s.text.toList.drop pos)) 0
      (s.programs.map fun p => (⟨p, p.begin nowhere⟩ : Lane)) := by
    intro l hl
    obtain ⟨p, -, rfl⟩ := List.mem_map.mp hl
    rfl
  have h := byteRace_spec s.text pos 0 none _ (s.text.size - pos) (by omega) hstand rfl
  rw [hprograms] at h
  have hlength : (runesOf (s.text.toList.drop pos)).length = 0 + (s.text.size - pos) := by
    rw [runesOf, List.length_map, List.length_drop, Array.length_toList, Nat.zero_add]
  rw [hlength]
  exact h

end Bytes

end Munch
