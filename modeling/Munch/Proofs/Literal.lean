import Munch.Proofs.Expansion
import Munch.Proofs.Pattern.Node
import Munch.Proofs.Pattern.Quotation
import Munch.Proofs.Program.Path

/-!
# Literals in quotes

A text in double quotes stands for itself. A literal is read up to its closing quote, a backslash in
it takes the next symbol as it is, and the rule for it takes the text that was read.

* `Rule.inQuotes t`: the quoted literal for the text `t`.
* `Rule.TakesJust r w`: the rule `r` takes the word `w` wherever it stands, and nothing else.
* `Lexer.RegistersWord lx spec action w`: registering `spec` puts a rule for the inclusive states
  that takes just `w`.
* `Lexer.RegistersLiteral lx spec action t`: it does so for the runes of `t`, if `t` is not too
  long.

Results:
* `Rule.groupLiterals_quoted`: a quoted literal becomes the group of the text that is read from it.
* `Pattern.Node.mem_lang_literal`: a literal has one word.
* **`Lexer.registersLiteral`**: a rule with a quoted literal takes just that text.
-/

namespace Munch

open Lexer

variable {α η : Type}

/-! ## Reading a literal -/

/-- Is the symbol one that a backslash has to stand before in quotes? -/
def Symbol.needsBackslash (s : Symbol) : Bool := s.is '\\' || s.is '"'

theorem Symbol.needsBackslash_iff {s : Symbol} :
    s.needsBackslash = true ↔ s = .char '\\' ∨ s = .char '"' := by
  rw [Symbol.needsBackslash, Bool.or_eq_true, Symbol.is_iff, Symbol.is_iff]

namespace Rule

/-- The text with a backslash before each backslash and each double quote. -/
def escapeQuotes (t : Text) : Text :=
  t.flatMap fun s => if s.needsBackslash then [.char '\\', s] else [s]

/-- The quoted literal for a text. -/
def inQuotes (t : Text) : Text := .char '"' :: (escapeQuotes t ++ [.char '"'])

variable {s : Symbol} {t u rest : Text}

theorem escapeQuotes_cons (s : Symbol) (t : Text) : escapeQuotes (s :: t) =
    (if s.needsBackslash then [.char '\\', s] else [s]) ++ escapeQuotes t := rfl

/-- A symbol that means itself in quotes. -/
theorem readLiteral_plain (hs : s.needsBackslash = false) (rest : Text) :
    readLiteral (s :: rest) = (readLiteral rest).map fun p => (s :: p.1, p.2) := by
  rw [← Bool.not_eq_true, Symbol.needsBackslash_iff, not_or] at hs
  rw [readLiteral.eq_def]
  split
  next h => cases h
  next h => exact absurd (List.cons.inj h).1 hs.2
  next h => exact absurd (List.cons.inj h).1 hs.1
  next h =>
    cases h
    rfl

theorem readLiteral_plain_eq_some (hs : s.needsBackslash = false) :
    readLiteral (s :: t) = some (u, rest) ↔ ∃ v, readLiteral t = some (v, rest) ∧ u = s :: v := by
  rw [readLiteral_plain hs, Option.map_eq_some_iff]
  simp only [Prod.exists, Prod.mk.injEq, eq_comm (b := u), exists_eq_right_right]

theorem readLiteral_escape_eq_some : readLiteral (.char '\\' :: s :: t) = some (u, rest) ↔
    ∃ v, readLiteral t = some (v, rest) ∧ u = unescape s :: v := by
  show (readLiteral t).map (fun p => (unescape s :: p.1, p.2)) = some (u, rest) ↔ _
  rw [Option.map_eq_some_iff]
  simp only [Prod.exists, Prod.mk.injEq, eq_comm (b := u), exists_eq_right_right]

/-- The ways in which a text can be read as a literal: it may be all read, close the literal, escape
a symbol, end with a backslash, or go on with a symbol that means itself. -/
theorem literal_induction {motive : Text → Prop} (nil : motive [])
    (quote : ∀ rest, motive (.char '"' :: rest))
    (escape : ∀ s rest, motive rest → motive (.char '\\' :: s :: rest))
    (dangling : motive [.char '\\'])
    (plain : ∀ s rest, s.needsBackslash = false → motive rest → motive (s :: rest)) (t : Text) :
    motive t := by
  induction t using readLiteral.induct with
  | case1 => exact nil
  | case2 rest => exact quote rest
  | case3 s rest ih => exact escape s rest ih
  | case4 s rest hquote hescape ih =>
    by_cases hs : s.needsBackslash = true
    · obtain rfl | rfl := Symbol.needsBackslash_iff.mp hs
      · cases rest with
        | nil => exact dangling
        | cons s rest => exact absurd rfl (hescape s rest rfl)
      · exact absurd rfl hquote
    · exact plain s rest (Bool.eq_false_iff.mpr hs) ih

/-- A literal is read back as the text that was written down. -/
theorem readLiteral_escapeQuotes (t rest : Text) :
    readLiteral (escapeQuotes t ++ .char '"' :: rest) = some (t, rest) := by
  induction t with
  | nil => rfl
  | cons s t ih =>
    rw [escapeQuotes_cons]
    by_cases hs : s.needsBackslash = true
    · rw [if_pos hs]
      refine readLiteral_escape_eq_some.mpr ⟨t, ih, ?_⟩
      obtain rfl | rfl := Symbol.needsBackslash_iff.mp hs <;> rfl
    · rw [if_neg hs, List.append_assoc]
      exact (readLiteral_plain_eq_some (Bool.eq_false_iff.mpr hs)).mpr ⟨t, ih, rfl⟩

theorem unescape_repaired (s : Symbol) : unescape (.char s.shown) = .char (unescape s).shown := by
  cases s with
  | char c =>
    show unescape (.char c) = _
    unfold unescape
    split <;> rfl
  | stray b => rfl

/-- A literal is read before or after its stray bytes are replaced. -/
theorem readLiteral_repaired (t : Text) :
    readLiteral t.repaired = (readLiteral t).map fun p => (p.1.repaired, p.2.repaired) := by
  induction t using literal_induction with
  | nil | quote | dangling => rfl
  | escape s rest ih =>
    show (readLiteral rest.repaired).map (fun p => (unescape (.char s.shown) :: p.1, p.2)) =
      ((readLiteral rest).map fun p => (unescape s :: p.1, p.2)).map _
    rw [ih, unescape_repaired, Option.map_map, Option.map_map]
    rfl
  | plain s rest hs ih =>
    have hshown : (Symbol.char s.shown).needsBackslash = false := by
      cases s with
      | char c => exact hs
      | stray b => rfl
    show readLiteral (.char s.shown :: rest.repaired) = _
    rw [readLiteral_plain hshown, readLiteral_plain hs, ih, Option.map_map, Option.map_map]
    rfl

/-- **A quoted literal becomes the group of the text that is read from it.** -/
theorem groupLiterals_quoted (h : readLiteral t = some (u, [])) (opening : Text) :
    groupLiterals opening (.char '"' :: t) =
      some (opening ++ escapeMeta u.repaired ++ [.char ')']) := by
  have hread : readLiteral t.repaired = some (u.repaired, []) := by
    rw [readLiteral_repaired, h]
    rfl
  have hend : groupLiteralsFrom opening t.length [] = some [] := by cases t <;> rfl
  show groupLiteralsFrom opening (t.length + 1) (.char '"' :: t.repaired) = _
  rw [groupLiteralsFrom, hread]
  simp only [Option.bind_eq_bind, Option.bind_some, hend, List.append_nil]

end Rule

/-! ## The word of a literal -/

namespace Pattern.Node

/-- A set of a single code point takes just this one. -/
theorem accepts_single (p : Nat) (r : Int) :
    (RuneTest.ofSet (.single p)).accepts r = true ↔ r = p := by
  have hall : CharSet.single p ≠ .all := by
    simp only [CharSet.single, CharSet.range, CharSet.all, maxPoint, ne_eq, CharSet.mk.injEq,
      List.cons.injEq, Prod.mk.injEq]
    omega
  have hnotNewline : CharSet.single p ≠ .notNewline := by
    simp [CharSet.single, CharSet.range, CharSet.notNewline]
  rw [RuneTest.ofSet, if_neg hall, if_neg hnotNewline]
  show (decide (0 ≤ r) && ((decide (p ≤ r.toNat) && decide (r.toNat ≤ p)) || false)) = true ↔ _
  simp only [Bool.or_false, Bool.and_eq_true, decide_eq_true_eq]
  omega

/-- **A literal has one word.** -/
theorem mem_lang_literal {points : List Nat} {w : List Rune} :
    w ∈ (literal false points).lang ↔ w = points.map Int.ofNat := by
  induction points generalizing w with
  | nil => exact Language.mem_one w
  | cons p points ih =>
    have hpoint (v : List Rune) : v ∈ (literal false [p]).lang ↔ v = [(p : Int)] := by
      rw [show (literal false [p]).lang = (Regex.step (.ofSet (.single p))).lang from mul_one _]
      show (∃ r, (RuneTest.ofSet (.single p)).accepts r = true ∧ v = [r]) ↔ _
      simp only [accepts_single, exists_eq_left]
    rw [lang_literal_cons, Language.mem_mul]
    simp only [hpoint, ih, exists_eq_left, List.singleton_append, List.map_cons, eq_comm]
    rfl

theorem free_literal (fold : Bool) (points : List Nat) : (literal fold points).regex.Free := by
  induction points with
  | nil => trivial
  | cons p points ih => exact ⟨trivial, ih⟩

end Pattern.Node

namespace Rule

/-- The rule takes the word wherever it stands, and nothing else. -/
def TakesJust (r : Rule α) (w : List Rune) : Prop :=
  ∀ prev rs n, r.program.Takes prev rs n ↔ n ≤ rs.length ∧ rs.take n = w

theorem TakesJust.unique {r : Rule α} {w w' : List Rune} (h : r.TakesJust w) (h' : r.TakesJust w') :
    w = w' := by
  have htakes := (h Rune.absent w w.length).mpr ⟨Nat.le_refl _, List.take_length⟩
  rw [← ((h' _ _ _).mp htakes).2, List.take_length]

theorem takesJust_literal {r : Rule α} {points : List Nat}
    (h : r.program = (Pattern.Node.literal false points).regex.program) :
    r.TakesJust (points.map Int.ofNat) := by
  intro prev rs n
  rw [h]
  constructor
  · intro htakes
    have hn := htakes.le_length
    rw [← Program.acceptsAt_iff_takes,
      Regex.program_accepts (Pattern.Node.free_literal _ _) _ hn] at htakes
    exact ⟨hn, Pattern.Node.mem_lang_literal.mp htakes⟩
  · rintro ⟨hn, htake⟩
    rw [← Program.acceptsAt_iff_takes, Regex.program_accepts (Pattern.Node.free_literal _ _) _ hn]
    exact Pattern.Node.mem_lang_literal.mpr htake

end Rule

namespace Lexer

/-- Registering the specification puts a rule for all inclusive states, and for no others. The rule
is made from the expanded pattern, and takes just the word. -/
def RegistersWord (lx : Lexer α η) (spec : Text) (action : Option α) (w : List Rune) : Prop :=
  ∃ r, compileRule lx.options.caseless (lx.expanded spec) action = .ok r ∧ r.action = action ∧
    r.TakesJust w ∧
    (lx.addRule spec action).1 = .ok () ∧
    ∀ state, (lx.addRule spec action).2.rules.rulesFor state =
      if state ∈ lx.states.inclusive then RuleTable.place r (lx.rules.rulesFor state)
        else lx.rules.rulesFor state

theorem RegistersWord.unique {lx : Lexer α η} {spec : Text} {action : Option α} {w w' : List Rune}
    (h : lx.RegistersWord spec action w) (h' : lx.RegistersWord spec action w') : w = w' := by
  obtain ⟨r, hr, -, hw, -⟩ := h
  obtain ⟨r', hr', -, hw', -⟩ := h'
  cases hr.symm.trans hr'
  exact hw.unique hw'

/-- Registering the specification puts a rule for the text, unless the text is too long for a
pattern. -/
def RegistersLiteral (lx : Lexer α η) (spec : Text) (action : Option α) (t : Text) : Prop :=
  (6 * t.length ≤ Pattern.maxEnds → lx.RegistersWord spec action t.runes) ∧
    (Pattern.maxEnds < 6 * t.length → (lx.addRule spec action).1 =
      .error (.badPattern spec (.fault ⟨.tooLarge, Pattern.quotation (t.map Symbol.shown)⟩)))

/-- The rule for a quoted literal, or the fault if it is too long. -/
theorem compileRule_quoted {t u : Text} (hread : Rule.readLiteral t = some (u, [])) (hu : u ≠ [])
    (action : Option α) :
    (6 * u.length ≤ Pattern.maxEnds → ∃ r, compileRule false (.char '"' :: t) action = .ok r ∧
      r.action = action ∧
        r.TakesJust u.runes) ∧
      (Pattern.maxEnds < 6 * u.length → compileRule false (.char '"' :: t) action =
        .error (.fault ⟨.tooLarge, Pattern.quotation (u.map Symbol.shown)⟩)) := by
  have hchars : u.map Symbol.shown ≠ [] := fun h => hu (List.map_eq_nil_iff.mp h)
  have hparse := Pattern.parse_quotation hchars
  rw [List.length_map] at hparse
  have hgroup : Rule.groupLiterals "(?:" (.char '"' :: t) =
      some (Pattern.quotation (u.map Symbol.shown)) := by
    rw [Rule.groupLiterals_quoted hread, Pattern.quotation, List.map_map]
    rfl
  have hrunes : u.runes = (Pattern.pointsOf (u.map Symbol.shown)).map Int.ofNat := by
    rw [Pattern.pointsOf, List.map_map, List.map_map]
    rfl
  unfold compileRule
  rw [hgroup, hrunes]
  refine ⟨fun hshort => ?_, fun hlong => ?_⟩
  · rw [if_pos hshort] at hparse
    simp only [Regex.parse, hparse, Except.map]
    exact ⟨_, rfl, rfl, Rule.takesJust_literal rfl⟩
  · rw [if_neg (Nat.not_le.mpr hlong)] at hparse
    simp only [Regex.parse, hparse, Except.map]

/-- **A rule with a quoted literal** takes just the text that is read from it. -/
theorem registersLiteral {lx : Lexer α η} {spec t u : Text} (action : Option α)
    (hcaseless : lx.options.caseless = false) (htarget : (Rule.splitSpec spec).1 = .unnamed)
    (hexpanded : lx.expanded spec = .char '"' :: t) (hread : Rule.readLiteral t = some (u, []))
    (hu : u ≠ []) : lx.RegistersLiteral spec action u := by
  obtain ⟨hresult, -, hrules⟩ := addRule_verdict lx spec action
  obtain ⟨hshort, hlong⟩ := compileRule_quoted hread hu action
  rw [← hcaseless, ← hexpanded] at hshort hlong
  refine ⟨fun hle => ?_, fun hlt => ?_⟩
  · obtain ⟨r, hr, haction, htakes⟩ := hshort hle
    have hverdict : lx.verdict spec action = .ok (lx.states.inclusive, r) := by
      unfold verdict
      rw [htarget, ← expanded, hr]
      rfl
    rw [hverdict] at hresult hrules
    refine ⟨r, hr, haction, htakes, hresult, fun state => ?_⟩
    rw [hrules]
    exact RuleTable.rulesFor_foldl_put _ _ _ _
  · have hverdict : lx.verdict spec action =
        .error (.badPattern spec (.fault ⟨.tooLarge, Pattern.quotation (u.map Symbol.shown)⟩)) := by
      unfold verdict
      rw [htarget, ← expanded, hlong hlt]
      rfl
    rw [hresult, hverdict]
    rfl

end Lexer

end Munch
