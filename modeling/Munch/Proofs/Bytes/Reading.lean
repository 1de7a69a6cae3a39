import Munch.Bytes.Matcher
import Munch.Proofs.Pattern.Plain

/-!
# Plain patterns as patterns over bytes

The reader of patterns over bytes goes from left to right with fuel, and leaves out what it cannot
read. Of a plain pattern nothing is left out.

Results:
* `Plain.reads`: reading what a plain pattern is written as gives its tree, whatever follows it that
  does not belong to it.
* **`Plain.parse?_text`**: every plain pattern can be read, and matches the words that it matches if
  the set of a class is the one that its merged ranges make.
* `Plain.compile_text`: the patterns of a state compile if none of them matches the empty word.
-/

namespace Munch

open Computability Bytes

/-! ## Bytes of characters -/

namespace PlainChar

theorem byte_toNat {c : Char} (h : c.toNat < 128) : (byte c).toNat = c.toNat := by
  rw [byte, Nat.toUInt8_eq]
  exact UInt8.toNat_ofNat_of_lt' (Nat.lt_trans h (by decide))

theorem toBytes_cons {c : Char} (h : c.toNat < 128) (t : Text) :
    Text.toBytes (.char c :: t) = byte c :: t.toBytes := by
  show encodePoint c.toNat ++ Text.toBytes t = _
  rw [encodePoint, if_pos h, byte]
  rfl

theorem toBytes_char {c : Char} (h : c.toNat < 128) : Text.toBytes [.char c] = [byte c] :=
  toBytes_cons h []

/-- The byte of a plain character is not that of one with another meaning. -/
theorem byte_ne (c : PlainChar) {d : Char} (hd : isPlain d = false ∧ d.toNat < 128) :
    byte c.val ≠ byte d := by
  intro h
  have hnat := congrArg UInt8.toNat h
  rw [byte_toNat c.point_lt, byte_toNat hd.2] at hnat
  refine c.ne hd.1 ?_
  rw [← Char.ofNat_toNat c.val, ← Char.ofNat_toNat d, hnat]

theorem isOperator_byte (c : PlainChar) : isOperator (byte c.val) = false := by
  have hall : ("|+*?()[]^".toList.all fun d => !isPlain d && decide (d.toNat < 128)) = true := by
    decide
  unfold isOperator
  rw [List.any_eq_false]
  intro d hd
  have hplain := List.all_eq_true.mp hall d hd
  rw [Bool.and_eq_true, Bool.not_eq_true', decide_eq_true_iff] at hplain
  rw [beq_iff_eq]
  exact (c.byte_ne hplain).symm

theorem readByte_cons (c : PlainChar) (rest : List UInt8) :
    readByte (byte c.val :: rest) = some (.set (.single c.point), rest) := by
  have hslash : byte c.val ≠ byte '\\' := c.byte_ne (by decide)
  have hdot : byte c.val ≠ byte '.' := c.byte_ne (by decide)
  unfold readByte
  simp only [hslash, hdot, c.isOperator_byte, byte_toNat c.point_lt, Bool.false_eq_true, if_false]
  rfl

theorem readClassByte_cons (c : PlainChar) (rest : List UInt8) :
    readClassByte (byte c.val :: rest) = some (c.point, rest) := by
  have hslash : byte c.val ≠ byte '\\' := c.byte_ne (by decide)
  unfold readClassByte
  simp only [hslash, byte_toNat c.point_lt, if_false]
  rfl

end PlainChar

/-- The bytes do not start with one of which `bad` is true. -/
def StartsWithout (bad : UInt8 → Prop) (t : List UInt8) : Prop := ∀ a, t.head? = some a → ¬ bad a

theorem toBytes_append (s t : Text) : Text.toBytes (s ++ t) = s.toBytes ++ t.toBytes :=
  List.flatMap_append

/-! ## Classes -/

namespace Member

theorem text_bytes (m : Member) :
    m.text.toBytes = match m with
      | .one c => [byte c.val]
      | .range lo hi _ => [byte lo.val, byte '-', byte hi.val] := by
  cases m with
  | one c => exact PlainChar.toBytes_char c.point_lt
  | range lo hi h =>
    show Text.toBytes ([.char lo.val] ++ ([.char '-'] ++ [.char hi.val])) = _
    rw [toBytes_append, toBytes_append, PlainChar.toBytes_char lo.point_lt,
      PlainChar.toBytes_char hi.point_lt, PlainChar.toBytes_char (by decide)]
    rfl

/-- A member starts with a plain character. -/
theorem text_bytes_head (m : Member) :
    ∃ (c : PlainChar) (t : List UInt8), m.text.toBytes = byte c.val :: t := by
  rw [text_bytes]
  cases m with
  | one c => exact ⟨c, _, rfl⟩
  | range lo hi h => exact ⟨lo, _, rfl⟩

theorem readClassItem_text (m : Member) {rest : List UInt8}
    (hrest : StartsWithout (· = byte '-') rest) :
    readClassItem (m.text.toBytes ++ rest) = some (m.bounds, rest) := by
  rw [text_bytes]
  unfold readClassItem
  cases m with
  | one c =>
    rw [List.singleton_append, c.readClassByte_cons]
    cases rest with
    | nil => rfl
    | cons a tail =>
      simp only [bind, Option.bind]
      rw [if_neg (hrest a rfl)]
      rfl
  | range lo hi h =>
    simp only [List.cons_append, List.nil_append, lo.readClassByte_cons, hi.readClassByte_cons,
      bind, Option.bind, if_true, Nat.min_eq_left h, Nat.max_eq_right h]
    rfl

theorem readClassItems_text (m : Member) (ms : List Member) {fuel : Nat} (hfuel : ms.length < fuel)
    (ranges : List (Nat × Nat)) (rest : List UInt8) :
    readClassItems fuel ranges ((Plain.members (m :: ms)).toBytes ++ byte ']' :: rest) =
      some (ranges ++ (m :: ms).map bounds, rest) := by
  induction ms generalizing m fuel ranges with
  | nil =>
    obtain ⟨fuel, rfl⟩ : ∃ n, fuel = n + 1 := ⟨fuel - 1, by omega⟩
    have hend : StartsWithout (· = byte '-') (byte ']' :: rest) := by
      rintro a ⟨⟩
      decide
    have hmembers : Plain.members [m] = m.text := List.append_nil _
    rw [hmembers, readClassItems, m.readClassItem_text hend]
    rfl
  | cons m' ms ih =>
    obtain ⟨fuel, rfl⟩ : ∃ n, fuel = n + 1 := ⟨fuel - 1, by omega⟩
    have hmembers : (Plain.members (m :: m' :: ms)).toBytes ++ byte ']' :: rest =
        m.text.toBytes ++ ((Plain.members (m' :: ms)).toBytes ++ byte ']' :: rest) := by
      rw [Plain.members, List.flatMap_cons, toBytes_append, List.append_assoc]
      rfl
    obtain ⟨c, t, hc⟩ : ∃ (c : PlainChar) (t : List UInt8),
        (Plain.members (m' :: ms)).toBytes ++ byte ']' :: rest = byte c.val :: t := by
      obtain ⟨c, t, hc⟩ := m'.text_bytes_head
      rw [Plain.members, List.flatMap_cons, toBytes_append, hc]
      exact ⟨c, _, rfl⟩
    have hnext :
        StartsWithout (· = byte '-') ((Plain.members (m' :: ms)).toBytes ++ byte ']' :: rest) := by
      rw [hc]
      rintro a ⟨⟩
      exact c.byte_ne (by decide)
    have hrec := ih m' (Nat.lt_of_succ_lt_succ hfuel) (ranges ++ [m.bounds])
    rw [hmembers, readClassItems, m.readClassItem_text hnext]
    rw [hc] at hrec ⊢
    simp only [bind, Option.bind]
    rw [if_neg (c.byte_ne (by decide)), hrec, List.append_assoc]
    rfl

end Member

theorem Plain.readClass_text (first : Member) (more : List Member) (rest : List UInt8) :
    Bytes.readClass ((members (first :: more)).toBytes ++ byte ']' :: rest) =
      some (.set (classSet (ranges first more)), rest) := by
  have hlength (m : Member) : 1 ≤ m.text.toBytes.length := by
    obtain ⟨c, t, hc⟩ := m.text_bytes_head
    rw [hc]
    exact Nat.succ_pos _
  have hfuel (ms : List Member) : ms.length ≤ (members ms).toBytes.length := by
    induction ms with
    | nil => exact Nat.zero_le _
    | cons m ms ih =>
      rw [members, List.flatMap_cons, toBytes_append, List.length_append, List.length_cons]
      have := hlength m
      exact Nat.add_comm 1 ms.length ▸ Nat.add_le_add this ih
  have hmore : more.length < ((members (first :: more)).toBytes ++ byte ']' :: rest).length := by
    have := hfuel (first :: more)
    rw [List.length_cons] at this
    rw [List.length_append]
    omega
  have hitems := first.readClassItems_text more hmore [] rest
  obtain ⟨c, t, hc⟩ : ∃ (c : PlainChar) (t : List UInt8),
      (members (first :: more)).toBytes ++ byte ']' :: rest = byte c.val :: t := by
    obtain ⟨c, t, hc⟩ := first.text_bytes_head
    rw [members, List.flatMap_cons, toBytes_append, hc]
    exact ⟨c, _, rfl⟩
  rw [hc] at hitems ⊢
  unfold Bytes.readClass
  simp only [if_neg (c.byte_ne (show isPlain '^' = false ∧ '^'.toNat < 128 by decide)), hitems,
    bind, Option.bind]
  rfl

/-! ## Operators and groups -/

/-- The tree of something that is matched so often. -/
def Times.tree (once : ByteTree) : Times → ByteTree
  | .once => once
  | .star => .star once
  | .plus => .plus once
  | .option => .option once

/-- The bytes do not start with an operator. -/
abbrev Calm : List UInt8 → Prop := StartsWithout fun a => a = byte '+' ∨ a = byte '*' ∨ a = byte '?'

/-- The bytes are at their end, or at a bar or the end of a group. -/
abbrev Stops : List UInt8 → Prop := StartsWithout fun a => a ≠ byte '|' ∧ a ≠ byte ')'

/-- The bytes are at their end, or at the end of a group. -/
abbrev Closes : List UInt8 → Prop := StartsWithout (· ≠ byte ')')

theorem Stops.calm {t : List UInt8} (h : Stops t) : Calm t := by
  intro a ha hop
  refine h a ha ⟨?_, ?_⟩
  all_goals
    rintro rfl
    revert hop
    decide

theorem Closes.stops {t : List UInt8} (h : Closes t) : Stops t := fun a ha hne => h a ha hne.2

theorem readOperators_calm (tree : ByteTree) {rest : List UInt8} (h : Calm rest) :
    readOperators tree rest = (tree, rest) := by
  cases rest with
  | nil => rfl
  | cons a rest =>
    have ha := h a rfl
    simp only [not_or] at ha
    rw [readOperators, if_neg ha.1, if_neg ha.2.1, if_neg ha.2.2]

theorem Times.readOperators_text (t : Times) (tree : ByteTree) {rest : List UInt8} (h : Calm rest) :
    readOperators tree (t.text.toBytes ++ rest) = (t.tree tree, rest) := by
  have hcalm (tree : ByteTree) := readOperators_calm tree h
  have hone (c : Char) (hc : c.toNat < 128) : Text.toBytes [.char c] ++ rest = byte c :: rest := by
    rw [PlainChar.toBytes_char hc]
    rfl
  cases t with
  | once => exact hcalm tree
  | star =>
    rw [text, hone _ (by decide), readOperators, if_neg (by decide), if_pos rfl]
    exact hcalm _
  | plus =>
    rw [text, hone _ (by decide), readOperators, if_pos rfl]
    exact hcalm _
  | option =>
    rw [text, hone _ (by decide), readOperators, if_neg (by decide), if_neg (by decide), if_pos rfl]
    exact hcalm _

theorem readSequence_cons (fuel : Nat) (a : UInt8) (t : List UInt8) :
    readSequence (fuel + 1) (a :: t) =
      match readPart fuel (a :: t) with
      | (none, t) => (.missing, t)
      | (some first, t) =>
        (follow (readOperators first t).1 (readSequence fuel (readOperators first t).2).1,
          (readSequence fuel (readOperators first t).2).2) := by
  have hne : a :: t = [] → False := by rintro ⟨⟩
  refine (readSequence.eq_3 (a :: t) fuel hne).trans ?_
  rfl

/-- Where a sequence stops there is no part to be read. -/
theorem readSequence_stops (fuel : Nat) {rest : List UInt8} (h : Stops rest) :
    readSequence fuel rest = (.missing, rest) := by
  have hpart (fuel : Nat) {a : UInt8} {t : List UInt8} (ha : a = byte '|' ∨ a = byte ')') :
      readPart fuel (a :: t) = (none, a :: t) := by
    cases fuel with
    | zero => rfl
    | succ fuel =>
      obtain rfl | rfl := ha
      · rw [readPart]
        simp only [show readByte (byte '|' :: t) = none from rfl]
        rw [if_neg (by decide), if_neg (by decide)]
      · rw [readPart]
        simp only [show readByte (byte ')' :: t) = none from rfl]
        rw [if_neg (by decide), if_neg (by decide)]
  cases fuel with
  | zero => rfl
  | succ fuel =>
    cases rest with
    | nil => rfl
    | cons a rest =>
      have ha : a = byte '|' ∨ a = byte ')' := by
        by_contra hne
        exact h a rfl (not_or.mp hne)
      rw [readSequence_cons, hpart fuel ha]

/-- Where a choice ends there is no further alternative. -/
theorem readMore_closes (fuel : Nat) {rest : List UInt8} (h : Closes rest) :
    readMore fuel rest = (.missing, rest) := by
  cases fuel with
  | zero => rfl
  | succ fuel =>
    cases rest with
    | nil => rfl
    | cons a rest =>
      obtain rfl : a = byte ')' := not_not.mp (h a rfl)
      rw [readMore, if_neg (by decide)]

namespace Plain

/-- The pattern as it is read over bytes. -/
def tree : {r : Rank} → Plain r → ByteTree
  | _, .char c => .set (.single c.point)
  | _, .set first more => .set (classSet (ranges first more))
  | _, .group body => body.tree
  | _, .last a t => t.tree a.tree
  | _, .next a t rest => .seq (t.tree a.tree) rest.tree
  | _, .only b => b.tree
  | _, .or b rest => .alt b.tree rest.tree

theorem tree_ne_missing {r : Rank} (p : Plain r) : p.tree ≠ .missing := by
  have htimes (t : Times) {tree : ByteTree} (h : tree ≠ .missing) : t.tree tree ≠ .missing := by
    cases t with
    | once => exact h
    | star | plus | option => rintro ⟨⟩
  induction p with
  | char c | set first more | next a t rest ih ihrest | or b rest ih ihrest => rintro ⟨⟩
  | group body ih | only b ih => exact ih
  | last a t ih => exact htimes t ih

/-- Every plain pattern starts with a plain character or with an opening mark. -/
theorem text_bytes_head {r : Rank} (p : Plain r) : ∃ a t, p.text.toBytes = a :: t ∧
    ((∃ c : PlainChar, a = byte c.val) ∨ a = byte '[' ∨ a = byte '(') := by
  have happend {s t : Text} (h : ∃ a u, s.toBytes = a :: u ∧
      ((∃ c : PlainChar, a = byte c.val) ∨ a = byte '[' ∨ a = byte '(')) :
      ∃ a u, (s ++ t).toBytes = a :: u ∧
        ((∃ c : PlainChar, a = byte c.val) ∨ a = byte '[' ∨ a = byte '(') := by
    obtain ⟨a, u, hs, ha⟩ := h
    exact ⟨a, u ++ t.toBytes, by rw [toBytes_append, hs]; rfl, ha⟩
  induction p with
  | char c => exact ⟨_, _, PlainChar.toBytes_char c.point_lt, .inl ⟨c, rfl⟩⟩
  | set first more => exact ⟨byte '[', _, rfl, .inr (.inl rfl)⟩
  | group body ih => exact ⟨byte '(', _, rfl, .inr (.inr rfl)⟩
  | last a t ih => exact happend ih
  | next a t rest ih ihrest => exact happend (happend ih)
  | only b ih => exact ih
  | or b rest ih ihrest => exact happend ih

theorem calm_text {r : Rank} (p : Plain r) (rest : List UInt8) : Calm (p.text.toBytes ++ rest) := by
  obtain ⟨a, t, ht, ha⟩ := p.text_bytes_head
  rw [ht]
  rintro _ ⟨⟩
  obtain ⟨c, rfl⟩ | rfl | rfl := ha
  · simp only [not_or]
    exact ⟨c.byte_ne (by decide), c.byte_ne (by decide), c.byte_ne (by decide)⟩
  · decide
  · decide

/-- How reading goes at the rank of a pattern: `size` is the number of its bytes. -/
def Reads : {r : Rank} → Plain r → Prop
  | .atom, p => ∀ fuel rest, 4 * p.text.toBytes.length + 1 ≤ fuel →
      readPart fuel (p.text.toBytes ++ rest) = (some p.tree, rest)
  | .branch, p => ∀ fuel rest, 4 * p.text.toBytes.length + 2 ≤ fuel → Stops rest →
      readSequence fuel (p.text.toBytes ++ rest) = (p.tree, rest)
  | .choice, p => (∀ fuel rest, 4 * p.text.toBytes.length + 3 ≤ fuel → Closes rest →
        readChoice fuel (p.text.toBytes ++ rest) = (p.tree, rest)) ∧
      ∀ fuel rest, 4 * p.text.toBytes.length + 3 ≤ fuel → Closes rest →
        readMore fuel (byte '|' :: p.text.toBytes ++ rest) = (p.tree, rest)

theorem text_bytes_pos {r : Rank} (p : Plain r) : 1 ≤ p.text.toBytes.length := by
  obtain ⟨a, t, ht, -⟩ := p.text_bytes_head
  rw [ht]
  exact Nat.succ_pos _

/-! ### Parts -/

theorem reads_char (c : PlainChar) : (char c).Reads := by
  intro fuel rest hfuel
  obtain ⟨fuel, rfl⟩ : ∃ n, fuel = n + 1 := ⟨fuel - 1, by omega⟩
  rw [text, PlainChar.toBytes_char c.point_lt, List.singleton_append, readPart, c.readByte_cons]
  rfl

theorem reads_set (first : Member) (more : List Member) : (set first more).Reads := by
  intro fuel rest hfuel
  obtain ⟨fuel, rfl⟩ : ∃ n, fuel = n + 1 := ⟨fuel - 1, by omega⟩
  have htext : (Plain.set first more).text.toBytes ++ rest =
      byte '[' :: ((members (first :: more)).toBytes ++ byte ']' :: rest) := by
    rw [text, List.cons_append, PlainChar.toBytes_cons (by decide), toBytes_append,
      PlainChar.toBytes_char (by decide), List.cons_append, List.append_assoc,
      List.singleton_append]
  have hbyte (t : List UInt8) : readByte (byte '[' :: t) = none := rfl
  rw [htext, readPart, hbyte]
  simp only [if_true, readClass_text]
  rfl

theorem reads_group {body : Plain .choice} (h : body.Reads) : (group body).Reads := by
  intro fuel rest hfuel
  obtain ⟨fuel, rfl⟩ : ∃ n, fuel = n + 1 := ⟨fuel - 1, by omega⟩
  have htext : (Plain.group body).text.toBytes = byte '(' :: (body.text.toBytes ++ [byte ')']) := by
    rw [text, List.cons_append, PlainChar.toBytes_cons (by decide), toBytes_append,
      PlainChar.toBytes_char (by decide)]
  have hbyte (t : List UInt8) : readByte (byte '(' :: t) = none := rfl
  have hcloses : Closes (byte ')' :: rest) := by
    rintro a ⟨⟩ hne
    exact hne rfl
  rw [htext, List.length_cons, List.length_append, List.length_singleton] at hfuel
  have hchoice := h.1 fuel (byte ')' :: rest) (by omega) hcloses
  rw [htext, List.cons_append, List.append_assoc, List.singleton_append, readPart, hbyte]
  simp only [hchoice, if_true]
  rw [if_neg (by decide)]
  rfl

/-! ### Sequences -/

/-- A part is read with its operator, and then whatever the sequence goes on with. -/
theorem Reads.piece {a : Plain .atom} (h : a.Reads) (t : Times) {fuel : Nat}
    (hfuel : 4 * a.text.toBytes.length + 1 ≤ fuel) {tail rest : List UInt8} (htail : Calm tail)
    {second : ByteTree} (hsecond : readSequence fuel tail = (second, rest)) :
    readSequence (fuel + 1) (a.text.toBytes ++ (t.text.toBytes ++ tail)) =
      (follow (t.tree a.tree) second, rest) := by
  have hpart := h fuel (t.text.toBytes ++ tail) hfuel
  obtain ⟨b, u, hu, -⟩ := a.text_bytes_head
  rw [hu] at hpart ⊢
  rw [List.cons_append, readSequence_cons, ← List.cons_append, hpart]
  simp only [t.readOperators_text a.tree htail, hsecond]

theorem reads_last {a : Plain .atom} (h : a.Reads) (t : Times) : (last a t).Reads := by
  intro fuel rest hfuel hrest
  obtain ⟨fuel, rfl⟩ : ∃ n, fuel = n + 1 := ⟨fuel - 1, by omega⟩
  rw [text, toBytes_append, List.length_append] at hfuel
  rw [text, toBytes_append, List.append_assoc,
    h.piece t (by omega) hrest.calm (readSequence_stops fuel hrest), follow, if_pos rfl]
  rfl

theorem reads_next {a : Plain .atom} (h : a.Reads) (t : Times) {b : Plain .branch} (hb : b.Reads) :
    (next a t b).Reads := by
  intro fuel rest hfuel hrest
  obtain ⟨fuel, rfl⟩ : ∃ n, fuel = n + 1 := ⟨fuel - 1, by omega⟩
  rw [text, toBytes_append, toBytes_append, List.length_append, List.length_append] at hfuel
  have := a.text_bytes_pos
  rw [text, toBytes_append, toBytes_append, List.append_assoc, List.append_assoc,
    h.piece t (by omega) (b.calm_text rest) (hb fuel rest (by omega) hrest), follow,
    if_neg b.tree_ne_missing]
  rfl

/-! ### Choices -/

theorem reads_only {b : Plain .branch} (h : b.Reads) : (only b).Reads := by
  refine ⟨fun fuel rest hfuel hrest => ?_, fun fuel rest hfuel hrest => ?_⟩
  all_goals
    obtain ⟨fuel, rfl⟩ : ∃ n, fuel = n + 1 := ⟨fuel - 1, by omega⟩
    rw [text] at hfuel
    have hb := h fuel rest (by omega) hrest.stops
    have hmore := readMore_closes fuel hrest
  · rw [text, readChoice, hb]
    simp only [hmore]
    rfl
  · rw [text, List.cons_append, readMore, if_pos rfl, hb]
    simp only [hmore]
    rfl

theorem reads_or {b : Plain .branch} (h : b.Reads) {p : Plain .choice} (hp : p.Reads) :
    (or b p).Reads := by
  have htext : (Plain.or b p).text.toBytes = b.text.toBytes ++ byte '|' :: p.text.toBytes := by
    rw [text, toBytes_append, PlainChar.toBytes_cons (by decide)]
  have hstops (t : List UInt8) : Stops (byte '|' :: t) := by
    rintro a ⟨⟩ hne
    exact hne.1 rfl
  refine ⟨fun fuel rest hfuel hrest => ?_, fun fuel rest hfuel hrest => ?_⟩
  all_goals
    obtain ⟨fuel, rfl⟩ : ∃ n, fuel = n + 1 := ⟨fuel - 1, by omega⟩
    rw [htext, List.length_append, List.length_cons] at hfuel
    have hb := h fuel (byte '|' :: p.text.toBytes ++ rest) (by omega) (hstops _)
    have hmore := hp.2 fuel rest (by omega) hrest
  · rw [htext, List.append_assoc, readChoice, hb]
    simp only [hmore, orElse, if_neg p.tree_ne_missing]
    rfl
  · rw [htext, List.cons_append, List.append_assoc, readMore, if_pos rfl, hb]
    simp only [hmore, orElse, if_neg p.tree_ne_missing]
    rfl

/-- **Reading a plain pattern gives its tree**, and what follows it is left. The fuel is enough for
four steps a byte. -/
theorem reads {r : Rank} (p : Plain r) : p.Reads := by
  induction p with
  | char c => exact reads_char c
  | set first more => exact reads_set first more
  | group body ih => exact reads_group ih
  | last a t ih => exact reads_last ih t
  | next a t rest ih ihrest => exact reads_next ih t ihrest
  | only b ih => exact reads_only ih
  | or b rest ih ihrest => exact reads_or ih ihrest

/-! ## The meaning of a plain pattern -/

/-- The tree has a meaning, with the words given, and it says of it whether it matches the empty
word. -/
def Means (tree : ByteTree) (L : Language Rune) (isNullable : Bool) : Prop :=
  ∃ x, tree.regex? = some x ∧ x.Free ∧ x.lang = L ∧ Bytes.nullable x = isNullable

theorem means_times (t : Times) {tree : ByteTree} {L : Language Rune} {b : Bool}
    (h : Means tree L b) : Means (t.tree tree) (t.words L) (t.nullable b) := by
  obtain ⟨x, hx, hfree, rfl, rfl⟩ := h
  cases t with
  | once => exact ⟨x, hx, hfree, rfl, rfl⟩
  | star =>
    refine ⟨.star x, ?_, ⟨hfree, trivial⟩, Regex.lang_star x, ?_⟩
    · rw [Times.tree, ByteTree.regex?, hx]
      rfl
    · show (Bytes.nullable x || true) = true
      rw [Bool.or_true]
  | plus =>
    refine ⟨.plus x, ?_, hfree, rfl, rfl⟩
    rw [Times.tree, ByteTree.regex?, hx]
    rfl
  | option =>
    refine ⟨.option x, ?_, ⟨hfree, trivial⟩, Regex.lang_option x, ?_⟩
    · rw [Times.tree, ByteTree.regex?, hx]
      rfl
    · show (Bytes.nullable x || true) = true
      rw [Bool.or_true]

theorem means_tree {r : Rank} (p : Plain r) : Means p.tree (p.words classSet) p.nullable := by
  induction p with
  | char c | set first more => exact ⟨_, rfl, trivial, rfl, rfl⟩
  | group body ih | only b ih => exact ih
  | last a t ih => exact means_times t ih
  | next a t rest ih ihrest =>
    obtain ⟨x, hx, hfree, hlang, hnull⟩ := means_times t ih
    obtain ⟨y, hy, hfree', hlang', hnull'⟩ := ihrest
    refine ⟨.seq x y, ?_, ⟨hfree, hfree'⟩, ?_, ?_⟩
    · rw [tree, ByteTree.regex?, hx, hy]
      rfl
    · rw [Regex.lang, hlang, hlang', words]
    · rw [Bytes.nullable, hnull, hnull', nullable]
  | or b rest ih ihrest =>
    obtain ⟨x, hx, hfree, hlang, hnull⟩ := ih
    obtain ⟨y, hy, hfree', hlang', hnull'⟩ := ihrest
    refine ⟨.alt x y, ?_, ⟨hfree, hfree'⟩, ?_, ?_⟩
    · rw [tree, ByteTree.regex?, hx, hy]
      rfl
    · rw [Regex.lang, hlang, hlang', words]
    · rw [Bytes.nullable, hnull, hnull', nullable]

/-- **Every plain pattern can be read as a pattern over bytes.** -/
theorem parse?_text (p : Plain .choice) : ByteTree.parse? p.text.toBytes = some p.tree := by
  have hclosed : Closes [] := by rintro a ⟨⟩
  have h := p.reads.1 (4 * p.text.toBytes.length + 4) [] (Nat.le_succ _) hclosed
  rw [List.append_nil] at h
  rw [ByteTree.parse?, h]

/-- The program of a plain pattern over bytes. -/
def byteProgram (p : Plain .choice) : Program := (p.tree.regex?.getD .empty).program

/-- **Plain patterns compile** if none of them matches the empty word, each to its own program. -/
theorem compile_text {ps : List (Plain .choice)} (hps : ∀ p ∈ ps, p.nullable = false) :
    Bytes.compile (ps.map text) = .programs (ps.map byteProgram) := by
  have hparse : (ps.map text).mapM (fun t => ByteTree.parse? t.toBytes) = some (ps.map tree) := by
    clear hps
    induction ps with
    | nil => rfl
    | cons p ps ih =>
      rw [List.map_cons, List.mapM_cons, parse?_text, ih]
      rfl
  have hregex : (ps.map tree).mapM ByteTree.regex? =
      some (ps.map fun p => p.tree.regex?.getD .empty) := by
    clear hps hparse
    induction ps with
    | nil => rfl
    | cons p ps ih =>
      obtain ⟨x, hx, -⟩ := p.means_tree
      rw [List.map_cons, List.mapM_cons, hx, ih, List.map_cons, hx]
      rfl
  have hnullable : (ps.map fun p => p.tree.regex?.getD .empty).any Bytes.nullable = false := by
    rw [List.any_map, List.any_eq_false]
    intro p hp
    obtain ⟨x, hx, -, -, hnull⟩ := p.means_tree
    show ¬ Bytes.nullable (p.tree.regex?.getD .empty) = true
    rw [hx, Option.getD_some, hnull, hps p hp]
    decide
  unfold Bytes.compile
  simp only [hparse, hregex, hnullable, Bool.false_eq_true, if_false, List.map_map]
  rfl

/-- **Over bytes a plain pattern matches its words**, with the classes that their merged ranges
make. -/
theorem byteProgram_accepts (p : Plain .choice) (gaps : Nat → Gap) {rs : List Rune} {n : Nat}
    (hn : n ≤ rs.length) :
    p.byteProgram.acceptsAt gaps rs n = true ↔ rs.take n ∈ p.words classSet := by
  obtain ⟨x, hx, hfree, hlang, -⟩ := p.means_tree
  rw [byteProgram, hx, Option.getD_some, Regex.program_accepts hfree gaps hn, hlang]

end Plain

end Munch
