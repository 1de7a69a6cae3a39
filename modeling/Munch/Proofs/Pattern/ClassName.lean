import Mathlib.Data.List.TakeDrop
import Munch.Pattern.Reading
import Munch.Proofs.Words

/-!
# Names of classes

A class in brackets may name other classes, as in `[:alpha:]`. No such name has a bracket or a
backslash in it, so that a text is cut where the name ends.

* `Mute s`: the symbol is no bracket and no backslash.
* `Glyph g`: the text is one symbol, or an escape. Behind the first two symbols of an escape all are
  mute.

Results:
* `mute_of_namedUnicode`, `mute_of_asciiClass?`: names of classes are mute.
* `cutColon_eq_none`, `infix_of_cutColon`: the end of a name is found iff there is one.
* **`cutColon_name`, `cutColon_glyph`**: it is found behind the name, and not in a glyph.
-/

namespace Munch.Pattern

/-- The symbol is no bracket and no backslash, so that it neither opens nor closes anything in a
class. -/
def Mute (s : Symbol) : Prop := s ≠ .char ']' ∧ s ≠ .char '[' ∧ s ≠ .char '\\'

instance : DecidablePred Mute := fun s => inferInstanceAs (Decidable (s ≠ _ ∧ s ≠ _ ∧ s ≠ _))

/-- One symbol, or an escape: a backslash, any symbol, and mute ones. -/
inductive Glyph : Text → Prop
  | symbol {s : Symbol} (hs : s ≠ .char '\\') : Glyph [s]
  | escape (s : Symbol) {more : Text} (hmore : ∀ x ∈ more, Mute x) : Glyph (.char '\\' :: s :: more)


section

variable {fold : Bool} {whole t rest name front g : Text} {s : CharSet}

/-! ## Names of classes -/

/-- The name has no brackets and no backslashes. -/
def muteName (name : String) : Bool := name.toList.all fun c => decide (Mute (.char c))

theorem mute_of_muteName {name : String} (h : muteName name = true) :
    ∀ c ∈ name.toList, Mute (.char c) :=
  fun c hc => of_decide_eq_true (List.all_eq_true.mp h c hc)

theorem all_muteName :
    ((Unicode.categories ++ Unicode.scripts).all fun e => muteName e.1) = true := by
  decide +kernel

theorem mute_names (e : String × List String) (he : e ∈ Unicode.categories ++ Unicode.scripts) :
    ∀ c ∈ e.1.toList, Mute (.char c) :=
  mute_of_muteName (List.all_eq_true.mp all_muteName e he)

theorem exists_of_find? {table : List (String × List String)} {name : String}
    (h : Unicode.find? table name = some s) : ∃ e ∈ table, e.1 = name := by
  obtain ⟨e, he, -⟩ := Option.map_eq_some_iff.mp h
  exact ⟨e, List.mem_of_find?_eq_some he, by simpa using List.find?_some he⟩

theorem mute_of_category? {name : String} (h : Unicode.category? name = some s) :
    ∀ c ∈ name.toList, Mute (.char c) := by
  unfold Unicode.category? at h
  split at h
  next c hname =>
    split at h
    · cases h
    next hne =>
      obtain ⟨e, he⟩ := List.exists_mem_of_ne_nil _ hne
      rw [List.mem_filter, beq_iff_eq] at he
      rw [hname]
      intro d hd
      rw [List.mem_singleton.mp hd]
      exact mute_names e (List.mem_append_left _ he.1) c (List.mem_of_mem_head? he.2)
  · obtain ⟨e, he, rfl⟩ := exists_of_find? h
    exact mute_names e (List.mem_append_left _ he)

theorem mute_of_unicodeClass? {name : String} (h : unicodeClass? name = some s) :
    ∀ c ∈ name.toList, Mute (.char c) := by
  unfold unicodeClass? at h
  split at h
  next hname =>
    rw [hname]
    exact mute_of_muteName (by decide +kernel)
  · rcases Option.or_eq_some_iff.mp h with hcategory | ⟨-, hscript⟩
    · exact mute_of_category? hcategory
    · obtain ⟨e, he, rfl⟩ := exists_of_find? hscript
      exact mute_names e (List.mem_append_right _ he)

theorem mute_of_asciiClass? {name : String} (h : asciiClass? name = some s) :
    ∀ c ∈ name.toList, Mute (.char c) := by
  unfold asciiClass? at h
  split at h
  case h_15 => cases h
  all_goals exact mute_of_muteName (by decide +kernel)

/-- A text is as mute as what is shown of it. -/
theorem mute_of_shown (h : ∀ c ∈ t.shown.toList, Mute (.char c)) : ∀ x ∈ t, Mute x := by
  intro x hx
  cases x with
  | stray b => exact ⟨nofun, nofun, nofun⟩
  | char c =>
    refine h c ?_
    rw [Text.shown, String.toList_ofList]
    exact List.mem_map.mpr ⟨.char c, hx, rfl⟩

/-- A caret in front of a name changes nothing about it. -/
theorem mute_of_cutCaret (h : ∀ x ∈ (cutCaret t).2, Mute x) : ∀ x ∈ t, Mute x := by
  unfold cutCaret at h
  split at h
  · intro x hx
    obtain rfl | hx := List.mem_cons.mp hx
    · decide
    · exact h x hx
  · exact h

theorem mute_of_namedUnicode {negated : Bool} (h : namedUnicode fold negated name whole = .ok s) :
    ∀ x ∈ name, Mute x := by
  unfold namedUnicode at h
  dsimp only at h
  cases hname : unicodeClass? (cutCaret name).2.shown with
  | none =>
    rw [hname] at h
    cases h
  | some s => exact mute_of_cutCaret (mute_of_shown (mute_of_unicodeClass? hname))

/-! ## Cutting a text -/

theorem cutColon_eq (h : cutColon t = some (name, rest)) :
    t = name ++ .char ':' :: .char ']' :: rest := by
  fun_induction cutColon t generalizing name with
  | case1 => cases h; rfl
  | case2 s t hne ih =>
    obtain ⟨⟨name, rest⟩, hcut, heq⟩ := Option.map_eq_some_iff.mp h
    cases heq
    rw [ih hcut, List.cons_append]
  | case3 => cases h

theorem cutAt_eq {c : Char} (h : cutAt c t = some (name, rest)) : t = name ++ .char c :: rest := by
  unfold cutAt at h
  rw [List.span_eq_takeWhile_dropWhile] at h
  split at h
  next front s tail heq =>
    cases h
    obtain ⟨rfl, hdrop⟩ := Prod.mk.inj heq
    have hs := List.head?_dropWhile_not (!·.is c) t
    rw [hdrop] at hs
    have : s.is c = true := by simpa using hs
    rw [← Symbol.is_iff.mp this, ← hdrop, List.takeWhile_append_dropWhile]
  · cases h

theorem excerpt_append (t rest : Text) : excerpt (t ++ rest) rest = t := by
  rw [excerpt, List.length_append, Nat.add_sub_cancel, List.take_left]

/-! ## Looking for the end of a name -/

/-- A symbol that is not the first one of `:]` is passed. -/
theorem cutColon_cons {s : Symbol} (h : s = .char ':' → t.head? ≠ some (.char ']')) :
    cutColon (s :: t) = (cutColon t).map fun p => (s :: p.1, p.2) := by
  rw [cutColon]
  rintro rest rfl rfl
  exact h rfl rfl

theorem cutColon_eq_none (h : cutColon t = none) : ¬[.char ':', .char ']'] <:+: t := by
  fun_induction cutColon t with
  | case1 => cases h
  | case2 s t hne ih =>
    rw [List.infix_cons_iff, not_or]
    refine ⟨?_, ih (Option.map_eq_none_iff.mp h)⟩
    rintro ⟨u, hu⟩
    obtain ⟨rfl, rfl⟩ := List.cons.inj hu
    exact hne u rfl rfl
  | case3 => rw [List.infix_nil]; exact List.cons_ne_nil _ _

theorem infix_of_cutColon (h : cutColon t = some (name, rest)) : [.char ':', .char ']'] <:+: t :=
  ⟨name, rest, by rw [cutColon_eq h, List.append_assoc]; rfl⟩

theorem exists_of_infix (h : [.char ':', .char ']'] <:+: t) : ∃ p, cutColon t = some p :=
  Option.ne_none_iff_exists'.mp fun hnone => cutColon_eq_none hnone h

/-- Mute symbols are passed, if no closing bracket follows them. -/
theorem cutColon_mute (h : ∀ x ∈ front, Mute x) (ht : t.head? ≠ some (.char ']')) :
    cutColon (front ++ t) = (cutColon t).map fun p => (front ++ p.1, p.2) := by
  induction front with
  | nil => exact Option.map_id'.symm
  | cons s front ih =>
    obtain ⟨-, hfront⟩ := List.forall_mem_cons.mp h
    rw [List.cons_append, cutColon_cons, ih hfront, Option.map_map]
    · rfl
    · rintro -
      cases front with
      | nil => exact ht
      | cons s' front => exact fun heq => (hfront s' List.mem_cons_self).1 (Option.some.inj heq)

/-- What follows a text makes no difference, if the end of a name is found in the text. -/
theorem cutColon_append (h : cutColon t = some (name, rest)) (u : Text) :
    cutColon (t ++ u) = some (name, rest ++ u) := by
  fun_induction cutColon t generalizing name with
  | case1 =>
    cases h
    rfl
  | case2 s t hne ih =>
    obtain ⟨⟨name, rest⟩, hcut, heq⟩ := Option.map_eq_some_iff.mp h
    cases heq
    rw [List.cons_append, cutColon_cons, ih hcut]
    · rfl
    · rintro rfl hhead
      cases t with
      | nil => cases hcut
      | cons x t => exact hne t rfl (congrArg (· :: t) (Option.some.inj hhead))
  | case3 => cases h

theorem cutColon_name (h : ∀ x ∈ name, Mute x) (rest : Text) :
    cutColon (name ++ .char ':' :: .char ']' :: rest) = some (name, rest) := by
  rw [cutColon_mute h (by rintro ⟨⟩), cutColon, Option.map_some, List.append_nil]

/-- A symbol or an escape is passed when the end of a name is looked for. -/
theorem cutColon_glyph (hg : Glyph g) (ht : t.head? ≠ some (.char ']')) :
    cutColon (g ++ t) = (cutColon t).map fun p => (g ++ p.1, p.2) := by
  cases hg with
  | symbol hs => exact cutColon_cons fun _ => ht
  | @escape s more hmore =>
    have hhead : (more ++ t).head? ≠ some (.char ']') := by
      cases more with
      | nil => exact ht
      | cons x more => exact fun heq => (hmore x List.mem_cons_self).1 (Option.some.inj heq)
    rw [List.cons_append, List.cons_append, cutColon_cons (by rintro ⟨⟩),
      cutColon_cons fun _ => hhead, cutColon_mute hmore ht, Option.map_map, Option.map_map]
    rfl

end

end Munch.Pattern
