import Munch.Lexer.Basic
import Munch.Proofs.Pattern.CharSet
import Munch.Proofs.Program.Language

/-!
# Plain patterns

Plain patterns are made of letters, digits and blanks of ASCII, of classes of these and of ranges of
them, of groups, bars, and the operators `*`, `+` and `?`. Both dialects can read them.

* `Plain`: the grammar of plain patterns. The rank of a pattern says where it may stand, so that
  what is written down is what is meant: a group is needed around a choice in a sequence.
* `Plain.text` writes a pattern down.
* `Plain.words read`: the words that a pattern matches, if `read` gives the set of a class. This is
  the only place where the two dialects may take different views.
-/

namespace Munch

open Computability

/-! ## Characters and classes -/

/-- Letters, digits and the blank of ASCII. -/
def isPlain (c : Char) : Bool := c.isAlphanum || c == ' '

/-- A character that means itself in both dialects. -/
abbrev PlainChar := {c : Char // isPlain c = true}

namespace PlainChar

/-- The code point of a plain character. -/
def point (c : PlainChar) : Nat := c.val.toNat

theorem point_lt (c : PlainChar) : c.point < 128 := by
  obtain ⟨c, hc⟩ := c
  show c.toNat < 128
  change (((decide (c.val ≥ 'A'.val ∧ c.val ≤ 'Z'.val) ||
    (decide (c.val ≥ 'a'.val) && decide (c.val ≤ 'z'.val))) ||
    (decide (c.val ≥ '0'.val) && decide (c.val ≤ '9'.val))) || c == ' ') = true at hc
  simp only [Bool.or_eq_true, Bool.and_eq_true, decide_eq_true_eq, beq_iff_eq] at hc
  have hle (d : UInt32) (h : c.val ≤ d) : c.toNat ≤ d.toNat := UInt32.le_iff_toNat_le.mp h
  obtain ((⟨-, h⟩ | ⟨-, h⟩) | ⟨-, h⟩) | rfl := hc
  · exact (hle _ h).trans_lt (by decide)
  · exact (hle _ h).trans_lt (by decide)
  · exact (hle _ h).trans_lt (by decide)
  · decide

/-- A plain character is not one that has another meaning. -/
theorem ne (c : PlainChar) {d : Char} (hd : isPlain d = false) : c.val ≠ d := by
  rintro rfl
  exact absurd c.property (by rw [hd]; decide)

end PlainChar

/-- What stands in a class: a character or a range. -/
inductive Member where
  | one (c : PlainChar)
  | range (lo hi : PlainChar) (h : lo.point ≤ hi.point)

namespace Member

/-- The first and the last code point. -/
def bounds : Member → Nat × Nat
  | .one c => (c.point, c.point)
  | .range lo hi _ => (lo.point, hi.point)

/-- The member as it is written. -/
def text : Member → Text
  | .one c => [.char c.val]
  | .range lo hi _ => [.char lo.val, .char '-', .char hi.val]

theorem bounds_ascii (m : Member) : CharSet.AsciiRange m.bounds := by
  cases m with
  | one c => exact ⟨Nat.le_refl _, c.point_lt⟩
  | range lo hi h => exact ⟨h, hi.point_lt⟩

end Member

/-- How often something is matched. -/
inductive Times where
  | once
  | star
  | plus
  | option
  deriving DecidableEq, Repr

namespace Times

/-- The operator as it is written. -/
def text : Times → Text
  | .once => []
  | .star => [.char '*']
  | .plus => [.char '+']
  | .option => [.char '?']

/-- The words that are so many words of `L`. -/
def words (L : Language Rune) : Times → Language Rune
  | .once => L
  | .star => L∗
  | .plus => L * L∗
  | .option => L + 1

/-- Is nothing enough, if it is enough for once? -/
def nullable (once : Bool) : Times → Bool
  | .once => once
  | .plus => once
  | .star => true
  | .option => true

end Times

/-! ## Patterns -/

/-- Where a pattern may stand. -/
inductive Rank where
  /-- in front of an operator -/
  | atom
  /-- in a sequence -/
  | branch
  /-- between parentheses -/
  | choice

/-- Plain patterns. -/
inductive Plain : Rank → Type
  | char (c : PlainChar) : Plain .atom
  | set (first : Member) (more : List Member) : Plain .atom
  | group (body : Plain .choice) : Plain .atom
  | last (a : Plain .atom) (t : Times) : Plain .branch
  | next (a : Plain .atom) (t : Times) (rest : Plain .branch) : Plain .branch
  | only (b : Plain .branch) : Plain .choice
  | or (b : Plain .branch) (rest : Plain .choice) : Plain .choice

namespace Plain

/-- The ranges of a class. -/
def ranges (first : Member) (more : List Member) : List (Nat × Nat) :=
  (first :: more).map Member.bounds

theorem ranges_ascii (first : Member) (more : List Member) :
    ∀ r ∈ ranges first more, CharSet.AsciiRange r := by
  intro r hr
  obtain ⟨m, -, rfl⟩ := List.mem_map.mp hr
  exact m.bounds_ascii

/-- The members of a class as they are written. -/
def members (ms : List Member) : Text := ms.flatMap Member.text

/-- The pattern as it is written. -/
def text : {l : Rank} → Plain l → Text
  | _, .char c => [.char c.val]
  | _, .set first more => .char '[' :: members (first :: more) ++ [.char ']']
  | _, .group body => .char '(' :: body.text ++ [.char ')']
  | _, .last a t => a.text ++ t.text
  | _, .next a t rest => a.text ++ t.text ++ rest.text
  | _, .only b => b.text
  | _, .or b rest => b.text ++ .char '|' :: rest.text

/-- The words that a pattern matches, if `read` gives the set of the ranges of a class. -/
def words (read : List (Nat × Nat) → CharSet) : {l : Rank} → Plain l → Language Rune
  | _, .char c => (Regex.step (.among (.single c.point))).lang
  | _, .set first more => (Regex.step (.among (read (ranges first more)))).lang
  | _, .group body => body.words read
  | _, .last a t => t.words (a.words read)
  | _, .next a t rest => t.words (a.words read) * rest.words read
  | _, .only b => b.words read
  | _, .or b rest => b.words read + rest.words read

/-- Does the pattern match the empty word? -/
def nullable : {l : Rank} → Plain l → Bool
  | _, .char _ => false
  | _, .set _ _ => false
  | _, .group body => body.nullable
  | _, .last a t => t.nullable a.nullable
  | _, .next a t rest => t.nullable a.nullable && rest.nullable
  | _, .only b => b.nullable
  | _, .or b rest => b.nullable || rest.nullable

/-- The characters of plain patterns. -/
def inPattern (c : Char) : Bool := isPlain c || "[]()|-*+?".toList.contains c

theorem text_inPattern {l : Rank} (p : Plain l) :
    ∀ s ∈ p.text, ∃ c, s = .char c ∧ inPattern c = true := by
  have hchar (c : PlainChar) : inPattern c.val = true := by rw [inPattern, c.property, Bool.true_or]
  have hmembers (ms : List Member) : ∀ s ∈ members ms, ∃ c, s = .char c ∧ inPattern c = true := by
    intro s hs
    obtain ⟨m, -, hs⟩ := List.mem_flatMap.mp hs
    cases m with
    | one c => exact ⟨c.val, List.mem_singleton.mp hs, hchar c⟩
    | range lo hi h =>
      simp only [Member.text, List.mem_cons, List.not_mem_nil, or_false] at hs
      obtain rfl | rfl | rfl := hs
      · exact ⟨_, rfl, hchar lo⟩
      · exact ⟨_, rfl, by decide⟩
      · exact ⟨_, rfl, hchar hi⟩
  have htimes (t : Times) : ∀ s ∈ t.text, ∃ c, s = .char c ∧ inPattern c = true := by
    intro s hs
    cases t with
    | once => exact absurd hs List.not_mem_nil
    | star => exact ⟨_, List.mem_singleton.mp hs, by decide⟩
    | plus => exact ⟨_, List.mem_singleton.mp hs, by decide⟩
    | option => exact ⟨_, List.mem_singleton.mp hs, by decide⟩
  induction p with
  | char c => exact List.forall_mem_singleton.mpr ⟨c.val, rfl, hchar c⟩
  | set first more =>
    rw [text, List.cons_append, List.forall_mem_cons, List.forall_mem_append,
      List.forall_mem_singleton]
    exact ⟨⟨_, rfl, by decide⟩, hmembers _, ⟨_, rfl, by decide⟩⟩
  | group body ih =>
    rw [text, List.cons_append, List.forall_mem_cons, List.forall_mem_append,
      List.forall_mem_singleton]
    exact ⟨⟨_, rfl, by decide⟩, ih, ⟨_, rfl, by decide⟩⟩
  | last a t ih => exact List.forall_mem_append.mpr ⟨ih, htimes t⟩
  | next a t rest ih ihrest =>
    exact List.forall_mem_append.mpr ⟨List.forall_mem_append.mpr ⟨ih, htimes t⟩, ihrest⟩
  | only b ih => exact ih
  | or b rest ih ihrest =>
    rw [text, List.forall_mem_append, List.forall_mem_cons]
    exact ⟨ih, ⟨_, rfl, by decide⟩, ihrest⟩

/-- There are no other characters in a plain pattern. -/
theorem not_holds {l : Rank} (p : Plain l) {d : Char} (hd : inPattern d = false) :
    p.text.holds d = false := by
  rw [Text.holds, List.any_eq_false]
  intro s hs
  obtain ⟨c, rfl, hc⟩ := p.text_inPattern s hs
  rw [Symbol.is, beq_iff_eq]
  rintro rfl
  exact absurd hc (by rw [hd]; decide)

/-- **The rule of a plain pattern** has it in both dialects, and its program is that of its
meaning. -/
theorem compileRule_ok {α : Type} {p : Plain .choice} {action : Option α} {r : Rule α}
    (h : Lexer.compileRule false p.text action = .ok r) :
    ∃ x, Regex.parse false p.text = .ok x ∧ r = ⟨p.text, p.text, action, x.program⟩ := by
  have hgroup (opening : Text) : Rule.groupLiterals opening p.text = some p.text := by
    rw [Rule.groupLiterals, p.not_holds (by decide)]
    rfl
  unfold Lexer.compileRule at h
  rw [hgroup, hgroup] at h
  cases hparse : Regex.parse false p.text with
  | error f =>
    simp only [hparse] at h
    cases h
  | ok x =>
    simp only [hparse] at h
    cases h
    exact ⟨x, rfl, rfl⟩

end Plain

end Munch
