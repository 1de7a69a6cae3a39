import Mathlib.Data.List.Infix
import Munch.Definitions

/-!
# Replacing one text by another

A text is replaced where it occurs, from left to right and without overlap. What becomes of another
text that occurs somewhere depends on whether it can overlap with what is replaced, or with what is
put in.

* `Replaced old new t u`: the text `t` with `old` replaced by `new` is `u`. There is one way to
  replace an occurrence, and one to go on behind a symbol that starts none.
* `Altered c d t u`: where the texts `t` and `u` differ first there is `c` in `t` and `d` in `u`.

Results:
* `Text.replaceAll_eq_iff`: that is what `Text.replaceAll` computes.
* `Text.replaceAll_of_absent`: a text without occurrences stays as it is.
* `Replaced.infix_new`: what is put in can be found in the outcome.
* `Replaced.altered`: the first difference is between the first symbols of what is replaced and what
  is put in.
* `Replaced.infix_grouped`: what can be found in the outcome was there before, or was put in with a
  group.
-/

namespace Munch

/-- The text is replaced from left to right. -/
inductive Replaced (old new : Text) : Text → Text → Prop
  | nil : Replaced old new [] []
  | hit {t u : Text} (h : Replaced old new t u) : Replaced old new (old ++ t) (new ++ u)
  | skip {s : Symbol} {t u : Text} (hnot : ¬old <+: s :: t) (h : Replaced old new t u) :
      Replaced old new (s :: t) (s :: u)

namespace Text

variable {old new t u : Text}

theorem after?_eq_some {front tail : Text} : after? front t = some tail ↔ t = front ++ tail := by
  induction front generalizing t with
  | nil => rw [after?, Option.some.injEq, List.nil_append]
  | cons a front ih =>
    cases t with
    | nil => simp [after?]
    | cons b t =>
      rw [after?, List.cons_append, List.cons.injEq]
      split
      next hab => rw [ih, hab, eq_self_iff_true, true_and]
      next hab => simp [Ne.symm hab]

theorem after?_eq_none {front : Text} : after? front t = none ↔ ¬front <+: t := by
  rw [Option.eq_none_iff_forall_ne_some, List.IsPrefix, not_exists]
  exact forall_congr' fun tail => not_congr (after?_eq_some.trans eq_comm)

/-- Each step takes a symbol at least, so the length of the text is fuel enough. -/
theorem replaced_replaceFrom (hold : old ≠ []) {fuel : Nat} (hfuel : t.length ≤ fuel) :
    Replaced old new t (replaceFrom old new fuel t) := by
  induction fuel generalizing t with
  | zero =>
    obtain rfl := List.eq_nil_of_length_eq_zero (Nat.le_zero.mp hfuel)
    exact .nil
  | succ fuel ih =>
    cases t with
    | nil => exact .nil
    | cons s rest =>
      rw [replaceFrom]
      cases hafter : after? old (s :: rest) with
      | none => exact .skip (after?_eq_none.mp hafter) (ih (Nat.le_of_succ_le_succ hfuel))
      | some tail =>
        rw [after?_eq_some] at hafter
        have hlength := congrArg List.length hafter
        have hpos := List.length_pos_of_ne_nil hold
        rw [List.length_append] at hlength
        rw [hafter]
        exact .hit (ih (by omega))

theorem replaced_replaceAll (hold : old ≠ []) (new t : Text) :
    Replaced old new t (replaceAll old new t) :=
  replaced_replaceFrom hold (Nat.le_refl _)

end Text

namespace Replaced

variable {old new t u v w : Text}

/-- There is only one outcome. -/
theorem unique (hold : old ≠ []) (h : Replaced old new t u) (h' : Replaced old new t v) :
    u = v := by
  induction h generalizing v with
  | nil =>
    generalize ht : ([] : Text) = t at h'
    cases h' with
    | nil => rfl
    | hit => exact absurd (List.append_eq_nil_iff.mp ht.symm).1 hold
    | skip => cases ht
  | @hit t u h ih =>
    generalize ht : old ++ t = t' at h'
    cases h' with
    | nil => exact absurd (List.append_eq_nil_iff.mp ht).1 hold
    | hit h' =>
      obtain rfl := List.append_cancel_left ht
      rw [ih h']
    | skip hnot => exact absurd ⟨t, ht⟩ hnot
  | @skip s t u hnot h ih =>
    generalize ht : s :: t = t' at h'
    cases h' with
    | nil => cases ht
    | @hit t' _ h' => exact absurd ⟨t', ht.symm⟩ hnot
    | skip _ h' =>
      cases ht
      rw [ih h']

/-- What does not occur is not replaced. -/
theorem of_absent (h : ¬old <:+: t) : Replaced old new t t := by
  induction t with
  | nil => exact .nil
  | cons s t ih =>
    rw [List.infix_cons_iff, not_or] at h
    exact .skip h.1 (ih h.2)

end Replaced

namespace Text

variable {old new t u : Text}

/-- **Replacing computes the one outcome there is.** -/
theorem replaceAll_eq_iff (hold : old ≠ []) : replaceAll old new t = u ↔ Replaced old new t u := by
  constructor
  · rintro rfl
    exact replaced_replaceAll hold new t
  · exact fun h => (replaced_replaceAll hold new t).unique hold h

theorem replaceAll_of_absent (hold : old ≠ []) (h : ¬old <:+: t) : replaceAll old new t = t :=
  (replaceAll_eq_iff hold).mpr (.of_absent h)

end Text

/-! ## Occurrences around a symbol -/

section Around

variable {w front back : Text} {c : Symbol}

/-- Without the symbol `c` a text at the front ends before it. -/
theorem prefix_of_not_mem (hc : c ∉ w) (h : w <+: front ++ c :: back) : w <+: front := by
  induction front generalizing w with
  | nil =>
    cases w with
    | nil => exact List.nil_prefix
    | cons s w =>
      obtain ⟨rfl, -⟩ := List.cons_prefix_cons.mp h
      exact absurd List.mem_cons_self hc
  | cons s front ih =>
    cases w with
    | nil => exact List.nil_prefix
    | cons s' w =>
      obtain ⟨rfl, hrest⟩ := List.cons_prefix_cons.mp h
      exact List.cons_prefix_cons.mpr ⟨rfl, ih (fun hmem => hc (List.mem_cons_of_mem _ hmem)) hrest⟩

/-- Without the symbol `c` a text stands before it, or behind it. -/
theorem infix_of_not_mem (hc : c ∉ w) (h : w <:+: front ++ c :: back) :
    w <:+: front ∨ w <:+: back := by
  induction front with
  | nil =>
    rw [List.nil_append, List.infix_cons_iff] at h
    obtain h | h := h
    · exact .inl (prefix_of_not_mem hc h : w <+: []).isInfix
    · exact .inr h
  | cons s front ih =>
    rw [List.cons_append, List.infix_cons_iff] at h
    obtain h | h := h
    · exact .inl (prefix_of_not_mem hc h : w <+: s :: front).isInfix
    · exact (ih h).imp_left fun h => List.infix_cons_iff.mpr (.inr h)

end Around

/-! ## Where texts differ first -/

/-- Where the texts differ first there is the symbol `c` in the first one and `d` in the second
one. -/
inductive Altered (c d : Symbol) : Text → Text → Prop
  | here (t u : Text) : Altered c d (c :: t) (d :: u)
  | later {t u : Text} (s : Symbol) (h : Altered c d t u) : Altered c d (s :: t) (s :: u)

namespace Altered

variable {c d : Symbol} {t u v w : Text}

theorem symm (h : Altered c d t u) : Altered d c u t := by
  induction h with
  | here => exact .here _ _
  | later s _ ih => exact .later s ih

theorem trans (h : Altered c d t u) (h' : Altered c d u v) : Altered c d t v := by
  induction h generalizing v with
  | here => cases h' <;> exact .here _ _
  | later s _ ih =>
    cases h' with
    | here => exact .here _ _
    | later _ h' => exact .later s (ih h')

theorem ne_nil (h : Altered c d t u) : u ≠ [] := by
  cases h <;> exact List.cons_ne_nil _ _

/-- Without the symbol `c` a text at the front ends before the difference. -/
theorem isPrefix (hc : c ∉ w) (h : Altered c d t u) (hw : w <+: t) : w <+: u := by
  induction h generalizing w with
  | here =>
    have hnil : w <+: [] := prefix_of_not_mem hc hw
    exact hnil.trans List.nil_prefix
  | later s _ ih =>
    cases w with
    | nil => exact List.nil_prefix
    | cons s' w =>
      obtain ⟨rfl, hrest⟩ := List.cons_prefix_cons.mp hw
      exact List.cons_prefix_cons.mpr ⟨rfl, ih (fun hmem => hc (List.mem_cons_of_mem _ hmem)) hrest⟩

/-- Where the symbols are read as different runes the texts are read differently. -/
theorem runes_ne (hcd : c.rune ≠ d.rune) (h : Altered c d t u) : t.runes ≠ u.runes := by
  induction h with
  | here => exact fun heq => hcd (List.cons.inj heq).1
  | later s _ ih => exact fun heq => ih (List.cons.inj heq).2

end Altered

namespace Replaced

variable {old new t u w : Text}

/-- What is put in is in the outcome. -/
theorem infix_new (hold : old ≠ []) (h : Replaced old new t u) (hin : old <:+: t) : new <:+: u := by
  induction h with
  | nil => exact absurd (List.infix_nil.mp hin) hold
  | hit => exact (List.prefix_append _ _).isInfix
  | skip hnot _ ih =>
    have hin := (List.infix_cons_iff.mp hin).resolve_left hnot
    exact List.infix_cons_iff.mpr (.inr (ih hin))

/-- What begins with a symbol that is not in it is no occurrence. -/
theorem cons {c : Symbol} (hold : old ≠ []) (hc : c ∉ old) (h : Replaced old new t u) :
    Replaced old new (c :: t) (c :: u) := by
  refine .skip (fun hprefix => ?_) h
  obtain ⟨s, rest, rfl⟩ := List.exists_cons_of_ne_nil hold
  exact hc (List.mem_cons.mpr (.inl (List.cons_prefix_cons.mp hprefix).1.symm))

/-- A symbol at the end that is not in what is replaced ends no occurrence. -/
theorem concat {c : Symbol} (hold : old ≠ []) (hc : c ∉ old) (h : Replaced old new t u) :
    Replaced old new (t ++ [c]) (u ++ [c]) := by
  induction h with
  | nil => exact Replaced.nil.cons hold hc
  | hit _ ih =>
    rw [List.append_assoc, List.append_assoc]
    exact .hit ih
  | @skip s t u hnot _ ih => exact .skip (fun hprefix => hnot (prefix_of_not_mem hc hprefix)) ih

/-- Where there is an occurrence, the texts differ in the first symbols of what is replaced and what
is put in. -/
theorem altered {c d : Symbol} {front back : Text} (hold : old = c :: front)
    (hnew : new = d :: back) (h : Replaced old new t u) (hin : old <:+: t) : Altered c d t u := by
  induction h with
  | nil => exact absurd (List.infix_nil.mp hin) (hold ▸ List.cons_ne_nil _ _)
  | hit =>
    rw [hold, hnew]
    exact .here _ _
  | @skip s t u hnot _ ih => exact .later s (ih ((List.infix_cons_iff.mp hin).resolve_left hnot))

theorem eq_or_altered {c d : Symbol} {front back : Text} (hold : old = c :: front)
    (hnew : new = d :: back) (h : Replaced old new t u) : t = u ∨ Altered c d t u := by
  by_cases hin : old <:+: t
  · exact .inr (h.altered hold hnew hin)
  · exact .inl ((of_absent hin).unique (hold ▸ List.cons_ne_nil _ _) h)

/-- **What occurs in the outcome was there before, or came in a group**, if it has no parenthesis.
In the first case it is not what was replaced. -/
theorem infix_grouped {c : Symbol} {front fragment : Text} (hold : old = c :: front)
    (h : Replaced old (Definitions.grouped fragment) t u) (hne : w ≠ []) (hopen : .char '(' ∉ w)
    (hclose : .char ')' ∉ w) (hw : w <:+: u) :
    (w ≠ old ∧ w <:+: t) ∨ (old <:+: t ∧ w <:+: fragment) := by
  induction h with
  | nil => exact absurd (List.infix_nil.mp hw) hne
  | @hit t u h ih =>
    have hgroup : Definitions.grouped fragment ++ u =
        .char '(' :: (fragment ++ .char ')' :: u) := by
      simp [Definitions.grouped]
    rw [hgroup] at hw
    obtain hnil | hw : w <:+: [] ∨ w <:+: fragment ++ .char ')' :: u := infix_of_not_mem hopen hw
    · exact absurd (List.infix_nil.mp hnil) hne
    obtain hw | hw := infix_of_not_mem hclose hw
    · exact .inr ⟨(List.prefix_append _ _).isInfix, hw⟩
    · have hsuffix : t <:+: old ++ t := (List.suffix_append old t).isInfix
      exact (ih hw).imp (And.imp_right fun h => h.trans hsuffix)
        (And.imp_left fun h => h.trans hsuffix)
  | @skip s t u hnot h ih =>
    have hsuffix : t <:+: s :: t := (List.suffix_cons s t).isInfix
    obtain hw | hw := List.infix_cons_iff.mp hw
    · have hbefore : w <+: s :: t := by
        obtain heq | haltered := (Replaced.skip hnot h).eq_or_altered hold rfl
        · rwa [heq]
        · exact haltered.symm.isPrefix hopen hw
      refine .inl ⟨?_, hbefore.isInfix⟩
      rintro rfl
      exact hnot hbefore
    · exact (ih hw).imp (And.imp_right fun h => h.trans hsuffix)
        (And.imp_left fun h => h.trans hsuffix)

end Replaced

end Munch
