import Munch.Proofs.Expansion

/-!
# Replacing all references at once

If no fragment refers to a definition, then it makes no difference that references are replaced by
one definition after the other: the outcome is that of replacing all of them at once, where they
stand in the pattern.

* `Substituted find t u`: the text `t` with all references to names that `find` has a fragment for
  replaced is `u`. What is put in is not looked at.
* `Definitions.Flat d`: names are identifiers, and no fragment refers to a definition.

Results:
* `Replaced.behind_reference`: replacing one reference passes over all others.
* `Substituted.of_replaced`: what is left to be replaced after the first definition.
* **`expand_replaces_at_once`**: so expanding does not depend on the order of the definitions, and
  does nothing more when it is done again.
-/

namespace Munch

open Definitions (reference grouped substituted)

/-- All references to names that `find` has a fragment for are replaced, where they stand. -/
inductive Substituted (find : Text → Option Text) : Text → Text → Prop
  | nil : Substituted find [] []
  | replace {name fragment t u : Text} (hfind : find name = some fragment)
      (h : Substituted find t u) : Substituted find (reference name ++ t) (grouped fragment ++ u)
  | keep {s : Symbol} {t u : Text} (hnone : ∀ name, (find name).isSome = true →
      ¬reference name <+: s :: t)
      (h : Substituted find t u) : Substituted find (s :: t) (s :: u)

/-- Names are identifiers, and no fragment refers to a definition. -/
structure Definitions.Flat (d : Definitions) : Prop where
  identifiers : ∀ e ∈ d.entries, IsIdentifier e.1
  silent : ∀ e ∈ d.entries, ∀ other ∈ d.entries, ¬reference other.1 <:+: e.2

instance (d : Definitions) : Decidable d.Flat :=
  decidable_of_iff ((∀ e ∈ d.entries, IsIdentifier e.1) ∧
      ∀ e ∈ d.entries, ∀ other ∈ d.entries, ¬reference other.1 <:+: e.2)
    ⟨fun h => ⟨h.1, h.2⟩, fun h => ⟨h.identifiers, h.silent⟩⟩

/-! ## Replacing one reference -/

namespace Replaced

variable {name other fragment t u : Text}

/-- A reference that starts the text is replaced. -/
theorem behind_hit (h : Replaced (reference name) (grouped fragment) (reference name ++ t) u) :
    ∃ v, u = grouped fragment ++ v ∧ Replaced (reference name) (grouped fragment) t v := by
  refine ⟨Text.replaceAll (reference name) (grouped fragment) t, ?_, ?_⟩
  · exact h.unique (reference_ne_nil name)
      (.hit (Text.replaced_replaceAll (reference_ne_nil name) _ t))
  · exact Text.replaced_replaceAll (reference_ne_nil name) _ t

/-- A front that no reference starts in stays. -/
theorem append {front v : Text} (hfront : .char '\x7b' ∉ front)
    (h : Replaced (reference name) (grouped fragment) t v) :
    Replaced (reference name) (grouped fragment) (front ++ t) (front ++ v) := by
  induction front with
  | nil => exact h
  | cons s front ih =>
    rw [List.mem_cons, not_or] at hfront
    refine .skip (fun hbegins => hfront.1 ?_) (ih hfront.2)
    rw [reference_eq] at hbegins
    exact (List.cons_prefix_cons.mp hbegins).1

/-- **Replacing one reference passes over another one.** -/
theorem behind_reference (hname : IsIdentifier name) (hother : IsIdentifier other)
    (hne : name ≠ other)
    (h : Replaced (reference name) (grouped fragment) (reference other ++ t) u) :
    ∃ v, u = reference other ++ v ∧ Replaced (reference name) (grouped fragment) t v := by
  have hrest := Text.replaced_replaceAll (reference_ne_nil name) (grouped fragment) t
  refine ⟨Text.replaceAll (reference name) (grouped fragment) t, ?_, hrest⟩
  refine h.unique (reference_ne_nil name) ?_
  have hbrace : Symbol.char '\x7b' ∉ other ++ [.char '\x7d'] := by
    simp [hother.not_mem brace_not_inName]
  rw [reference_eq other, List.cons_append, List.cons_append]
  refine .skip (fun hbegins => ?_) (hrest.append hbrace)
  obtain ⟨back, hback⟩ := reference_prefix_iff.mp hbegins
  rw [List.append_assoc, List.singleton_append] at hback
  exact hne (identifier_unique hother hname hback).1.symm

/-- What starts no reference before the replacement starts none behind it. -/
theorem reference_prefix (hother : IsIdentifier other)
    (h : Replaced (reference name) (grouped fragment) t u) (hbegins : reference other <+: u) :
    reference other <+: t := by
  have hopen := hother.not_mem_reference (s := .char '(') (by decide) (by decide) (by decide)
  obtain rfl | haltered := h.eq_or_altered (reference_eq name) rfl
  · exact hbegins
  · exact haltered.symm.isPrefix hopen hbegins

end Replaced

/-! ## Replacing all of them -/

namespace Substituted

variable {find : Text → Option Text} {name fragment t u : Text}

/-- There is an outcome for every text. The induction is on its length, as a reference may be
long. -/
theorem exists_outcome (find : Text → Option Text) (t : Text) : ∃ u, Substituted find t u := by
  induction hlength : t.length using Nat.strong_induction_on generalizing t with
  | _ n ih =>
    subst hlength
    cases t with
    | nil => exact ⟨[], .nil⟩
    | cons s t =>
      by_cases hstarts : ∃ name, (find name).isSome = true ∧ reference name <+: s :: t
      · obtain ⟨name, hfind, rest, hrest⟩ := hstarts
        obtain ⟨fragment, hfragment⟩ := Option.isSome_iff_exists.mp hfind
        rw [← hrest]
        have hless : rest.length < (reference name ++ rest).length := by
          rw [reference_eq, List.cons_append, List.length_cons, List.length_append]
          omega
        obtain ⟨u, hu⟩ := ih _ (by rwa [← hrest]) rest rfl
        exact ⟨_, .replace hfragment hu⟩
      · obtain ⟨u, hu⟩ := ih t.length (Nat.lt_succ_self _) t rfl
        exact ⟨_, .keep (fun name hfind hbegins => hstarts ⟨name, hfind, hbegins⟩) hu⟩

/-- Where nothing is defined nothing is replaced. -/
theorem eq_self (h : Substituted (fun _ => none) t u) : u = t := by
  induction h with
  | nil => rfl
  | replace hfind => cases hfind
  | keep _ _ ih => rw [ih]

/-- A group without references stays. It ends in front of what follows it. -/
theorem group (hnames : ∀ name, (find name).isSome = true → IsIdentifier name)
    (hsilent : ∀ name, (find name).isSome = true → ¬reference name <:+: fragment)
    (h : Substituted find t u) :
    Substituted find (grouped fragment ++ t) (grouped fragment ++ u) := by
  have hbody (body : Text) (hbody : ∀ name, (find name).isSome = true → ¬reference name <:+: body) :
      Substituted find (body ++ .char ')' :: t) (body ++ .char ')' :: u) := by
    induction body with
    | nil =>
      refine .keep (fun name _ hbegins => ?_) h
      rw [reference_eq] at hbegins
      cases (List.cons_prefix_cons.mp hbegins).1
    | cons s body ih =>
      refine .keep (fun name hfind hbegins => hbody name hfind ?_)
        (ih fun name hfind hin => hbody name hfind (hin.trans (List.suffix_cons s body).isInfix))
      have hclose :=
        (hnames name hfind).not_mem_reference (s := .char ')') (by decide) (by decide) (by decide)
      exact (prefix_of_not_mem hclose hbegins : reference name <+: s :: body).isInfix
  have hgroup (v : Text) : grouped fragment ++ v = (.char '(' :: fragment) ++ .char ')' :: v := by
    simp [grouped]
  rw [hgroup, hgroup]
  refine hbody _ fun name hfind hin => hsilent name hfind ?_
  obtain hbegins | hin := List.infix_cons_iff.mp hin
  · rw [reference_eq] at hbegins
    cases (List.cons_prefix_cons.mp hbegins).1
  · exact hin

/-- **What is left to be replaced after the first definition**: all references to the others, where
they stood before. The induction is on the text, whose references to the first definition have
become groups. -/
theorem of_replaced {find' : Text → Option Text} {v : Text}
    (hfind' : ∀ other, find' other = if other = name then some fragment else find other)
    (hname : IsIdentifier name) (hnames : ∀ other, (find other).isSome = true → IsIdentifier other)
    (hsilent : ∀ other, (find other).isSome = true → ¬reference other <:+: fragment)
    (h : Substituted find' t u) (hreplaced : Replaced (reference name) (grouped fragment) t v) :
    Substituted find v u := by
  induction h generalizing v with
  | nil =>
    obtain rfl := hreplaced.unique (reference_ne_nil name) .nil
    exact .nil
  | @replace other inserted t u hother h ih =>
    rw [hfind'] at hother
    by_cases heq : other = name
    · subst heq
      rw [if_pos rfl, Option.some.injEq] at hother
      subst hother
      obtain ⟨v, rfl, hrest⟩ := hreplaced.behind_hit
      exact (ih hrest).group hnames hsilent
    · rw [if_neg heq] at hother
      have hidentifier := hnames other (by rw [hother]; rfl)
      obtain ⟨v, rfl, hrest⟩ := hreplaced.behind_reference hname hidentifier (Ne.symm heq)
      exact .replace hother (ih hrest)
  | @keep s t u hnone h ih =>
    have hskip : ¬reference name <+: s :: t := hnone name (by rw [hfind', if_pos rfl]; rfl)
    have hrest := Text.replaced_replaceAll (reference_ne_nil name) (grouped fragment) t
    have hall := Replaced.skip hskip hrest
    obtain rfl := hreplaced.unique (reference_ne_nil name) hall
    refine .keep (fun other hother hbegins => ?_) (ih hrest)
    refine hnone other ?_ (hall.reference_prefix (hnames other hother) hbegins)
    rw [hfind']
    split
    · rfl
    · exact hother

end Substituted

/-! ## Definitions -/

namespace Definitions

variable {entries : List (Text × Text)} {pattern : Text}

/-- Replacing one definition after the other comes to replacing them all at once. -/
theorem substituted_eq (hnames : ∀ e ∈ entries, IsIdentifier e.1)
    (hsilent : ∀ e ∈ entries, ∀ other ∈ entries, ¬reference other.1 <:+: e.2) {u : Text}
    (h : Substituted (fun name => entries.lookup name) pattern u) :
    substituted entries pattern = u := by
  induction entries generalizing pattern with
  | nil => exact h.eq_self.symm
  | cons e entries ih =>
    obtain ⟨hname, hothers⟩ := List.forall_mem_cons.mp hnames
    have hdefined {name : Text} (hfind : (entries.lookup name).isSome = true) :
        ∃ e ∈ entries, e.1 = name := by
      obtain ⟨e, he, heq⟩ := List.lookup_isSome_iff.mp hfind
      exact ⟨e, he, (beq_iff_eq.mp heq).symm⟩
    have hfirst (other : Text) :
        (e :: entries).lookup other = if other = e.1 then some e.2 else entries.lookup other := by
      rw [List.lookup_cons]
      by_cases heq : other = e.1
      · simp [heq]
      · simp [heq, beq_eq_false_iff_ne.mpr heq]
    refine ih hothers (fun e' he' other hother => ?_) (h.of_replaced hfirst hname ?_ ?_ ?_)
    · exact hsilent e' (List.mem_cons_of_mem _ he') other (List.mem_cons_of_mem _ hother)
    · intro other hfind
      obtain ⟨e', he', rfl⟩ := hdefined hfind
      exact hothers e' he'
    · intro other hfind
      obtain ⟨e', he', rfl⟩ := hdefined hfind
      exact hsilent e List.mem_cons_self e' (List.mem_cons_of_mem _ he')
    · exact Text.replaced_replaceAll (reference_ne_nil _) _ _

theorem Flat.expand_eq_iff {d : Definitions} (hd : d.Flat) {u : Text} :
    Substituted d.find? pattern u ↔ d.expand pattern = u := by
  have heq {u : Text} (h : Substituted d.find? pattern u) : d.expand pattern = u := by
    rw [expand_eq]
    exact substituted_eq hd.identifiers hd.silent h
  refine ⟨heq, ?_⟩
  rintro rfl
  obtain ⟨u, hu⟩ := Substituted.exists_outcome d.find? pattern
  rwa [heq hu]

/-- No reference to a definition is left. -/
theorem Flat.not_reference {d : Definitions} (hd : d.Flat) (pattern : Text) :
    ∀ e ∈ d.entries, ¬reference e.1 <:+: d.expand pattern := by
  intro e he hin
  rw [expand_eq] at hin
  obtain ⟨hnot, -⟩ | ⟨i, e', hbrings⟩ := reference_substituted (hd.identifiers e he) hin
  · exact hnot (List.mem_map_of_mem he)
  · exact hd.silent e' (List.mem_of_getElem? hbrings.entry) e he hbrings.refers

/-- Definitions of different names are found, wherever they stand. -/
theorem find?_eq_some_iff {d : Definitions} (hd : (d.entries.map (·.1)).Nodup)
    {name fragment : Text} : d.find? name = some fragment ↔ (name, fragment) ∈ d.entries := by
  unfold find?
  rw [List.lookup_eq_some_iff]
  constructor
  · rintro ⟨front, back, heq, -⟩
    rw [heq]
    exact List.mem_append_right _ List.mem_cons_self
  · intro hmem
    obtain ⟨front, back, heq⟩ := List.append_of_mem hmem
    refine ⟨front, back, heq, fun e he => bne_iff_ne.mpr fun hname => ?_⟩
    rw [heq, List.map_append, List.nodup_append] at hd
    exact hd.2.2 e.1 (List.mem_map_of_mem he) name (List.mem_map_of_mem List.mem_cons_self)
      hname.symm

theorem find?_perm {d d' : Definitions} (hperm : d'.entries.Perm d.entries)
    (hd : (d.entries.map (·.1)).Nodup) : d'.find? = d.find? := by
  have hd' : (d'.entries.map (·.1)).Nodup := (hperm.map _).nodup_iff.mpr hd
  funext name
  refine Option.ext fun fragment => ?_
  rw [find?_eq_some_iff hd', find?_eq_some_iff hd, hperm.mem_iff]

theorem Flat.perm {d d' : Definitions} (hd : d.Flat) (hperm : d'.entries.Perm d.entries) :
    d'.Flat where
  identifiers e he := hd.identifiers e (hperm.mem_iff.mp he)
  silent e he other hother := hd.silent e (hperm.mem_iff.mp he) other (hperm.mem_iff.mp hother)

end Definitions

/-- **Expanding replaces all references at once**, if names are identifiers and no fragment refers
to a definition. So the order of definitions makes no difference, no two of them having one name,
and expanding a second time does nothing more. -/
theorem expand_replaces_at_once {d : Definitions} (hd : d.Flat) (pattern : Text) :
    (∀ u, Substituted d.find? pattern u ↔ d.expand pattern = u) ∧
      (∀ d' : Definitions, d'.entries.Perm d.entries → (d.entries.map (·.1)).Nodup →
        d'.expand pattern = d.expand pattern) ∧
      d.expand (d.expand pattern) = d.expand pattern := by
  refine ⟨fun u => hd.expand_eq_iff, fun d' hperm hnodup => ?_, ?_⟩
  · refine (hd.perm hperm).expand_eq_iff.mp ?_
    rw [Definitions.find?_perm hperm hnodup]
    exact hd.expand_eq_iff.mpr rfl
  · rw [Definitions.expand_eq]
    exact Definitions.substituted_of_absent (hd.not_reference pattern)

/-- Definitions with braces of their own, which refer to nothing that is defined. -/
def braced : Definitions := ⟨[("A", "x\x7b2\x7d"), ("B", "\x7bA"), ("C_1", "A\x7d\x7bD\x7d")]⟩

/-- A pattern with references inside of braces, and beside braces that belong to none. -/
def bracedPattern : Text := "\x7b\x7bA\x7d\x7bB\x7d\x7d\x7bC_1\x7d\x7bA"

set_option maxRecDepth 10000 in
theorem expand_replaces_at_once_braced :
    braced.expand bracedPattern = "\x7b(x\x7b2\x7d)(\x7bA)\x7d(A\x7d\x7bD\x7d)\x7bA" ∧
      Substituted braced.find? bracedPattern "\x7b(x\x7b2\x7d)(\x7bA)\x7d(A\x7d\x7bD\x7d)\x7bA" ∧
      (Definitions.mk braced.entries.reverse).expand bracedPattern =
        braced.expand bracedPattern := by
  have hexpand : braced.expand bracedPattern =
      "\x7b(x\x7b2\x7d)(\x7bA)\x7d(A\x7d\x7bD\x7d)\x7bA" := by
    decide +kernel
  obtain ⟨hone, horder, -⟩ :=
    expand_replaces_at_once (d := braced) (by decide +kernel) bracedPattern
  exact ⟨hexpand, (hone _).mpr hexpand, horder _ (List.reverse_perm _) (by decide +kernel)⟩

end Munch
