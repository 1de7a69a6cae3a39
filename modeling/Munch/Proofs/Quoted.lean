import Munch.Proofs.Literal

/-!
# Quoted literals

A text in double quotes, with a backslash before each backslash and double quote in it, is a rule
for just that text. References are replaced before the quotes are looked at, though: one in a quoted
text is replaced as well, and the rule is then one for the text that is read from the outcome.

* `Rule.closesBehind escaped t`: a quote behind the text `t` is the first one that closes the
  literal.

Results:
* `Rule.closesBehind_replaced`: replacing references closes no literal, and leaves none open.
* `Definitions.altered_substituted`: where a reference is replaced the pattern is another one in the
  end.
* **`quoted_literal_takes_itself`**: a quoted literal without references is a rule for its text.
* **`quoted_literal_takes_itself_iff`**: any other one is a rule for what is read from the outcome,
  and not for its text.
-/

namespace Munch

open Lexer

variable {α η : Type}

/-! ## References in quotes -/

namespace Rule

variable {escaped : Bool} {s c : Symbol} {t u b b' name fragment : Text}

/-- Is a quote behind the text the first one that closes the literal? `escaped` says if a backslash
stands before the text. -/
def closesBehind : (escaped : Bool) → Text → Bool
  | escaped, [] => !escaped
  | true, _ :: t => closesBehind false t
  | false, s :: t => if s.is '\\' then closesBehind true t else !s.is '"' && closesBehind false t

theorem closesBehind_plain (hs : s.needsBackslash = false) (escaped : Bool) (t : Text) :
    closesBehind escaped (s :: t) = closesBehind false t := by
  rw [Symbol.needsBackslash, Bool.or_eq_false_iff] at hs
  cases escaped with
  | true => rfl
  | false =>
    rw [closesBehind, hs.1, hs.2]
    rfl

/-- Whatever comes before it, a symbol that means itself starts anew. -/
theorem closesBehind_append (hquote : .char '"' ∉ t) (hc : c.needsBackslash = false)
    (escaped : Bool) (u : Text) : closesBehind escaped (t ++ c :: u) = closesBehind false u := by
  induction t generalizing escaped with
  | nil => exact closesBehind_plain hc escaped u
  | cons s t ih =>
    rw [List.mem_cons, not_or] at hquote
    rw [List.cons_append]
    by_cases hs : s.needsBackslash = true
    · obtain rfl : s = .char '\\' :=
        (Symbol.needsBackslash_iff.mp hs).resolve_right (Ne.symm hquote.1)
      cases escaped <;> exact ih hquote.2 _
    · rw [closesBehind_plain (Bool.eq_false_iff.mpr hs)]
      exact ih hquote.2 _

theorem closesBehind_escapeQuotes (t : Text) : closesBehind false (escapeQuotes t) = true := by
  induction t with
  | nil => rfl
  | cons s t ih =>
    rw [escapeQuotes_cons]
    by_cases hs : s.needsBackslash = true
    · rw [if_pos hs]
      exact ih
    · rw [if_neg hs, List.singleton_append, closesBehind_plain (Bool.eq_false_iff.mpr hs)]
      exact ih

/-- **Replacing references closes no literal, and leaves none open.** -/
theorem closesBehind_replaced
    (h : Replaced (Definitions.reference name) (Definitions.grouped fragment) t u)
    (hname : .char '"' ∉ name) (hfragment : .char '"' ∉ fragment) (escaped : Bool) :
    closesBehind escaped t = closesBehind escaped u := by
  induction h generalizing escaped with
  | nil => rfl
  | @hit t u _ ih =>
    have hreference : Symbol.char '"' ∉ Symbol.char '\x7b' :: name := by simp [hname]
    have hgrouped : Symbol.char '"' ∉ Symbol.char '(' :: fragment := by simp [hfragment]
    have hbefore := closesBehind_append hreference (c := .char '\x7d') rfl escaped t
    have hafter := closesBehind_append hgrouped (c := .char ')') rfl escaped u
    rw [List.append_cons] at hbefore hafter
    exact hbefore.trans ((ih false).trans hafter.symm)
  | @skip s t u _ _ ih =>
    cases escaped with
    | true => exact ih false
    | false => rw [closesBehind, closesBehind, ih, ih]

theorem closesBehind_substituted {entries : List (Text × Text)}
    (hquotes : ∀ e ∈ entries, .char '"' ∉ e.1 ∧ .char '"' ∉ e.2) (t : Text) :
    closesBehind false (Definitions.substituted entries t) = closesBehind false t := by
  induction entries generalizing t with
  | nil => rfl
  | cons e entries ih =>
    obtain ⟨hfirst, hothers⟩ := List.forall_mem_cons.mp hquotes
    have hreplaced := Text.replaced_replaceAll (reference_ne_nil e.1) (Definitions.grouped e.2) t
    exact (ih hothers _).trans (closesBehind_replaced hreplaced hfirst.1 hfirst.2 false).symm

theorem exists_readLiteral (h : closesBehind false t = true) :
    ∃ u, readLiteral (t ++ [.char '"']) = some (u, []) := by
  induction t using literal_induction with
  | nil => exact ⟨[], rfl⟩
  | quote | dangling => cases h
  | escape s rest ih =>
    obtain ⟨u, hu⟩ := ih h
    exact ⟨_, readLiteral_escape_eq_some.mpr ⟨u, hu, rfl⟩⟩
  | plain s rest hs ih =>
    rw [closesBehind_plain hs] at h
    obtain ⟨u, hu⟩ := ih h
    exact ⟨_, (readLiteral_plain_eq_some hs).mpr ⟨u, hu, rfl⟩⟩

end Rule

/-! ## What replacing alters -/

/-- **A reference to any of the definitions makes a difference**, whatever the others do then: each
one changes a brace to a parenthesis first. -/
theorem Definitions.altered_substituted {entries : List (Text × Text)} {pattern : Text}
    (h : ∃ e ∈ entries, reference e.1 <:+: pattern) :
    Altered (.char '\x7b') (.char '(') pattern (substituted entries pattern) := by
  induction entries generalizing pattern with
  | nil => exact absurd h (by simp)
  | cons e entries ih =>
    have hreplaced := Text.replaced_replaceAll (reference_ne_nil e.1) (grouped e.2) pattern
    show Altered _ _ pattern
      (substituted entries (Text.replaceAll (reference e.1) (grouped e.2) pattern))
    generalize Text.replaceAll (reference e.1) (grouped e.2) pattern = next at hreplaced
    by_cases hfirst : reference e.1 <:+: pattern
    · have haltered := hreplaced.altered (reference_eq e.1) rfl hfirst
      by_cases hothers : ∃ e ∈ entries, reference e.1 <:+: next
      · exact haltered.trans (ih hothers)
      · rw [not_exists] at hothers
        rwa [substituted_of_absent fun e he hin => hothers e ⟨he, hin⟩]
    · obtain rfl : next = pattern := hreplaced.unique (reference_ne_nil e.1) (.of_absent hfirst)
      obtain ⟨e', he', hin⟩ := h
      obtain rfl | he' := List.mem_cons.mp he'
      · exact absurd hin hfirst
      · exact ih ⟨e', he', hin⟩

/-- Texts that differ like this do so when they are read as literals. The induction is on how the
first one is read; up to the difference the second one is read alike. -/
theorem Altered.read {b b' t u : Text} (h : Altered (.char '\x7b') (.char '(') b b')
    (ht : Rule.readLiteral (b ++ [.char '"']) = some (t, []))
    (hu : Rule.readLiteral (b' ++ [.char '"']) = some (u, [])) :
    Altered (.char '\x7b') (.char '(') t u := by
  induction b using Rule.literal_induction generalizing b' t u with
  | nil => cases h
  | quote rest => exact absurd (Prod.mk.inj (Option.some.inj ht)).2 (List.concat_ne_nil _ _)
  | dangling =>
    cases h with
    | later _ h => cases h
  | escape s rest ih =>
    obtain ⟨t, hrest, rfl⟩ := Rule.readLiteral_escape_eq_some.mp ht
    cases h with
    | later _ h =>
      cases h with
      | here =>
        obtain ⟨u, -, rfl⟩ := Rule.readLiteral_escape_eq_some.mp hu
        exact .here t u
      | later _ h =>
        obtain ⟨u, hrest', rfl⟩ := Rule.readLiteral_escape_eq_some.mp hu
        exact .later _ (ih h hrest hrest')
  | plain s rest hs ih =>
    obtain ⟨t, hrest, rfl⟩ := (Rule.readLiteral_plain_eq_some hs).mp ht
    cases h with
    | here =>
      obtain ⟨u, -, rfl⟩ := (Rule.readLiteral_plain_eq_some rfl).mp hu
      exact .here t u
    | later _ h =>
      obtain ⟨u, hrest', rfl⟩ := (Rule.readLiteral_plain_eq_some hs).mp hu
      exact .later s (ih h hrest hrest')

/-- Quotes around a pattern are not part of any reference. -/
theorem Definitions.substituted_inQuotes {entries : List (Text × Text)}
    (h : ∀ e ∈ entries, .char '"' ∉ e.1) (t : Text) :
    substituted entries (.char '"' :: (t ++ [.char '"'])) =
      .char '"' :: (substituted entries t ++ [.char '"']) := by
  induction entries generalizing t with
  | nil => rfl
  | cons e entries ih =>
    obtain ⟨hfirst, hothers⟩ := List.forall_mem_cons.mp h
    have hold := reference_ne_nil e.1
    have hquote : Symbol.char '"' ∉ reference e.1 := by simp [reference, hfirst]
    have hreplaced :=
      ((Text.replaced_replaceAll hold (grouped e.2) t).concat hold hquote).cons hold hquote
    show substituted entries (Text.replaceAll (reference e.1) (grouped e.2) _) = _
    rw [(Text.replaceAll_eq_iff hold).mpr hreplaced]
    exact ih hothers _

/-- A reference in a quoted text is one between the quotes. -/
theorem Rule.reference_infix_inQuotes {name t : Text} (hname : .char '"' ∉ name)
    (h : Definitions.reference name <:+: inQuotes t) :
    Definitions.reference name <:+: escapeQuotes t := by
  have hquote : Symbol.char '"' ∉ Definitions.reference name := by
    simp [Definitions.reference, hname]
  have hnone : ¬Definitions.reference name <:+: [] := fun h =>
    reference_ne_nil name (List.infix_nil.mp h)
  have hbehind : Definitions.reference name <:+: [] ∨
      Definitions.reference name <:+: escapeQuotes t ++ [.char '"'] :=
    infix_of_not_mem hquote h
  exact (infix_of_not_mem hquote (hbehind.resolve_left hnone)).resolve_right hnone

/-- **What is read between the quotes** when all references are replaced: another text than before,
if there are any. -/
theorem Rule.readLiteral_substituted {entries : List (Text × Text)}
    (hquotes : ∀ e ∈ entries, .char '"' ∉ e.1 ∧ .char '"' ∉ e.2) (t : Text) :
    ∃ u, readLiteral (Definitions.substituted entries (escapeQuotes t) ++ [.char '"']) =
      some (u, []) ∧
      ((∀ e ∈ entries, ¬Definitions.reference e.1 <:+: inQuotes t) ∧ u = t ∨
        (∃ e ∈ entries, Definitions.reference e.1 <:+: inQuotes t) ∧
          Altered (.char '\x7b') (.char '(') t u) := by
  have hbefore := readLiteral_escapeQuotes t []
  have hclosed :=
    (closesBehind_substituted hquotes (escapeQuotes t)).trans (closesBehind_escapeQuotes t)
  obtain ⟨u, hu⟩ := exists_readLiteral hclosed
  refine ⟨u, hu, ?_⟩
  by_cases hany : ∃ e ∈ entries, Definitions.reference e.1 <:+: inQuotes t
  · obtain ⟨e, he, hin⟩ := hany
    have hinside := reference_infix_inQuotes (hquotes e he).1 hin
    exact .inr ⟨⟨e, he, hin⟩, (Definitions.altered_substituted ⟨e, he, hinside⟩).read hbefore hu⟩
  · have hfree : ∀ e ∈ entries, ¬Definitions.reference e.1 <:+: inQuotes t :=
      fun e he hin => hany ⟨e, he, hin⟩
    have hinside : escapeQuotes t <:+: inQuotes t :=
      List.infix_append [Symbol.char '"'] (escapeQuotes t) [Symbol.char '"']
    rw [Definitions.substituted_of_absent fun e he hin => hfree e he (hin.trans hinside),
      hbefore] at hu
    exact .inl ⟨hfree, (Prod.mk.inj (Option.some.inj hu)).1.symm⟩

/-! ## Rules with quoted literals -/

section Quoted

variable (lx : Lexer α η) (s : String) (action : Option α)

/-- **A quoted literal without references is a rule for its text.** -/
theorem quoted_literal_takes_itself (hs : s ≠ "") (hcaseless : lx.options.caseless = false)
    (hfree : ∀ e ∈ lx.definitions.entries, ¬Definitions.reference e.1 <:+: Rule.inQuotes s) :
    lx.RegistersLiteral (Rule.inQuotes s) action s := by
  have hne : Text.ofString s ≠ [] := by simpa [Text.ofString] using hs
  have hexpanded : lx.expanded (Rule.inQuotes s) = Rule.inQuotes s :=
    (Definitions.expand_eq _ _).trans (Definitions.substituted_of_absent hfree)
  exact registersLiteral action hcaseless rfl hexpanded (Rule.readLiteral_escapeQuotes s []) hne

/-- A lexer with a definition of digits. -/
def digitsDefined : Lexer Nat Unit := .configured [.define "A" "[0-9]"]

/-- A text with quotes, a backslash, braces, a newline, other symbols with a meaning and one beyond
ASCII. -/
def mixedText : String := "\"a+\\n\"\x7bB\x7d[^\n]*|(世)$"

theorem quoted_literal_takes_itself_mixed :
    mixedText ≠ "" ∧ digitsDefined.options.caseless = false ∧
      (∀ e ∈ digitsDefined.definitions.entries, ¬Definitions.reference e.1 <:+:
        Rule.inQuotes mixedText) ∧
      6 * (Text.ofString mixedText).length ≤ Pattern.maxEnds ∧
      digitsDefined.RegistersWord (Rule.inQuotes mixedText) (some 1)
        (Text.ofString mixedText).runes := by
  have hne : mixedText ≠ "" := by decide +kernel
  have hfree : ∀ e ∈ digitsDefined.definitions.entries,
      ¬Definitions.reference e.1 <:+: Rule.inQuotes mixedText := by decide +kernel
  have hshort : 6 * (Text.ofString mixedText).length ≤ Pattern.maxEnds := by decide +kernel
  exact ⟨hne, rfl, hfree, hshort,
    (quoted_literal_takes_itself digitsDefined mixedText (some 1) hne rfl hfree).1 hshort⟩

/-- **What definitions make of a quoted literal.** Where they have no double quotes the rule is one
for the text that is read between the quotes when all references are replaced. This is the text
itself just if there is no reference. -/
theorem quoted_literal_takes_itself_iff (hs : s ≠ "") (hcaseless : lx.options.caseless = false)
    (hquotes : ∀ e ∈ lx.definitions.entries, .char '"' ∉ e.1 ∧ .char '"' ∉ e.2) :
    (∃ t, Rule.readLiteral (lx.definitions.expand (Rule.escapeQuotes s) ++ [.char '"']) =
      some (t, []) ∧
        lx.RegistersLiteral (Rule.inQuotes s) action t) ∧
      (6 * s.length ≤ Pattern.maxEnds →
        (lx.RegistersWord (Rule.inQuotes s) action (Text.ofString s).runes ↔
          ∀ e ∈ lx.definitions.entries, ¬Definitions.reference e.1 <:+: Rule.inQuotes s)) := by
  have hexpanded : lx.expanded (Rule.inQuotes s) =
      .char '"' :: (lx.definitions.expand (Rule.escapeQuotes s) ++ [.char '"']) := by
    rw [expanded, Definitions.expand_eq, Definitions.expand_eq]
    exact Definitions.substituted_inQuotes (fun e he => (hquotes e he).1) _
  obtain ⟨t, ht, hkind⟩ := Rule.readLiteral_substituted hquotes (Text.ofString s)
  rw [← Definitions.expand_eq] at ht
  have hne : t ≠ [] := by
    obtain ⟨-, rfl⟩ | ⟨-, haltered⟩ := hkind
    · simpa [Text.ofString] using hs
    · exact haltered.ne_nil
  have hliteral := registersLiteral action hcaseless rfl hexpanded ht hne
  refine ⟨⟨t, ht, hliteral⟩, fun hshort => ?_⟩
  obtain ⟨hfree, rfl⟩ | ⟨hany, haltered⟩ := hkind
  · have hlength : 6 * (Text.ofString s).length ≤ Pattern.maxEnds := by
      rwa [Text.ofString, List.length_map, String.length_toList]
    exact iff_of_true (hliteral.1 hlength) hfree
  · refine iff_of_false (fun hword => ?_) fun hfree => ?_
    · obtain hlong | hshort := Nat.lt_or_ge Pattern.maxEnds (6 * t.length)
      · obtain ⟨-, -, -, -, hok, -⟩ := hword
        cases hok.symm.trans (hliteral.2 hlong)
      · exact haltered.runes_ne (by decide) (hword.unique (hliteral.1 hshort))
    · obtain ⟨e, he, hin⟩ := hany
      exact hfree e he hin

end Quoted

theorem quoted_literal_takes_itself_iff_digits :
    (∀ e ∈ digitsDefined.definitions.entries, .char '"' ∉ e.1 ∧ .char '"' ∉ e.2) ∧
      ¬digitsDefined.RegistersWord (Rule.inQuotes "\x7bA\x7d") (some 1)
        (Text.ofString "\x7bA\x7d").runes ∧
      digitsDefined.RegistersWord (Rule.inQuotes "\x7bB\x7d") (some 1)
        (Text.ofString "\x7bB\x7d").runes := by
  have hquotes : ∀ e ∈ digitsDefined.definitions.entries, .char '"' ∉ e.1 ∧ .char '"' ∉ e.2 := by
    decide +kernel
  obtain ⟨-, hused⟩ :=
    quoted_literal_takes_itself_iff digitsDefined "\x7bA\x7d" (some 1)
      (by decide +kernel) rfl hquotes
  obtain ⟨-, hunused⟩ :=
    quoted_literal_takes_itself_iff digitsDefined "\x7bB\x7d" (some 1)
      (by decide +kernel) rfl hquotes
  refine ⟨hquotes, fun h => ?_, ?_⟩
  · exact absurd ((hused (by decide)).mp h) (by decide +kernel)
  · exact (hunused (by decide)).mpr (by decide +kernel)

/-- The rule for a quoted text takes another one, as soon as a name that is in braces there is
defined. There is no warning. -/
theorem quoted_literal_reached :
    (Lexer.configured [] : Lexer Nat Unit).RegistersWord (Rule.inQuotes "\x7bA\x7d") (some 1)
        (Text.ofString "\x7bA\x7d").runes ∧
      digitsDefined.RegistersWord (Rule.inQuotes "\x7bA\x7d") (some 1)
        (Text.ofString "([0-9])").runes ∧
      ¬digitsDefined.RegistersWord (Rule.inQuotes "\x7bA\x7d") (some 1)
        (Text.ofString "\x7bA\x7d").runes ∧
      (digitsDefined.addRule (Rule.inQuotes "\x7bA\x7d") (some 1)).2.warnings =
        digitsDefined.warnings := by
  have hundefined :
    (Lexer.configured [] : Lexer Nat Unit).RegistersLiteral (Rule.inQuotes "\x7bA\x7d") (some 1)
      "\x7bA\x7d" := by
    refine registersLiteral (t := Text.ofString "\x7bA\x7d\"") (some 1) rfl rfl ?_ ?_ ?_ <;>
      decide +kernel
  have hdefined : digitsDefined.RegistersLiteral (Rule.inQuotes "\x7bA\x7d")
      (some 1) "([0-9])" := by
    refine registersLiteral (t := Text.ofString "([0-9])\"") (some 1) rfl rfl ?_ ?_ ?_ <;>
      decide +kernel
  have hword := hdefined.1 (by decide)
  refine ⟨hundefined.1 (by decide), hword, fun h => ?_, by decide +kernel⟩
  exact absurd (h.unique hword) (by decide +kernel)

end Munch
