import Munch.Proofs.Pattern.Bracketed
import Munch.Proofs.RuleFile.Splitting

/-!
# The scan of a class in brackets

Quoted literals are replaced before a pattern is read. A quote in a class starts no literal, so the
end of each class is looked for in a scan of its own, which knows names, escapes, and the bracket
that may stand first. It does not know ranges: a bracket at the end of one, with a colon behind it,
is taken for the start of a name. The scan then goes on behind the next `:]`, wherever that stands.

* `cutInside t`: what the scan takes of a text that starts inside of a class, and what follows.
* `Passes front rest`: the scan takes `front`, and goes on in front of `rest`.
* `Misled rest items`: in a class with these items a range ends with a bracket that has a colon
  behind it, and the next `:]` ends with the bracket that closes the class, or behind the class.

Results:
* `cutInside_append`: the scan cuts a text in two.
* `passes_item`: an item is passed, unless it ends with a bracket that seems to open a name.
* `passes_first`, `passes_range`: so is what follows a bracket that stands first, and a range up to
  its last bracket.
-/

namespace Munch.Rule

open Pattern

section

variable {fuel : Nat} {s : Symbol} {t u front rest name tail g item : Text} {items : List Text}

/-! ## The scan of a class -/

/-- What a class takes of a text that it starts inside of, and what follows it. -/
def cutInside (t : Text) : Text × Text := cutBody t.length t

/-- Any number of steps will do that is not less than the number of symbols. -/
theorem cutBody_enough {n : Nat} (h : t.length ≤ fuel) (hn : t.length ≤ n) :
    cutBody fuel t = cutBody n t := by
  fun_induction cutBody fuel t generalizing n with
  | case1 t =>
    obtain rfl := List.length_eq_zero_iff.mp (Nat.le_zero.mp h)
    cases n <;> rfl
  | case2 => cases n <;> rfl
  | case3 =>
    cases n with
    | zero => cases hn
    | succ n => rfl
  | case4 fuel s t body tail hcut ih =>
    simp only [List.length_cons] at h hn
    obtain ⟨k, rfl⟩ : ∃ k, n = k + 1 := ⟨n - 1, by omega⟩
    rw [cutBody, ← ih (n := k) (by omega) (by omega), hcut]
  | case5 fuel t name rest hcolon body tail hcut ih =>
    have hlength := congrArg List.length (cutColon_eq hcolon)
    simp only [List.length_cons, List.length_append] at h hn hlength
    obtain ⟨k, rfl⟩ : ∃ k, n = k + 1 := ⟨n - 1, by omega⟩
    rw [cutBody, hcolon]
    dsimp only
    rw [← ih (n := k) (by omega) (by omega), hcut]
  | case6 fuel t hcolon body tail hcut ih =>
    simp only [List.length_cons] at h hn ih
    obtain ⟨k, rfl⟩ : ∃ k, n = k + 1 := ⟨n - 1, by omega⟩
    rw [cutBody, hcolon]
    dsimp only
    rw [← ih (n := k) (by omega) (by omega), hcut]
  | case7 fuel s t hclose hescape hopen body tail hcut ih =>
    simp only [List.length_cons] at h hn
    obtain ⟨k, rfl⟩ : ∃ k, n = k + 1 := ⟨n - 1, by omega⟩
    rw [cutBody, ← ih (n := k) (by omega) (by omega), hcut]
    · exact hclose
    · exact hescape
    · exact hopen

theorem cutBody_eq (h : t.length ≤ fuel) : cutBody fuel t = cutInside t :=
  cutBody_enough h (Nat.le_refl _)

/-- The scan loses nothing. -/
theorem cutInside_append (t : Text) : (cutInside t).1 ++ (cutInside t).2 = t := by
  unfold cutInside
  generalize t.length = fuel
  fun_induction cutBody fuel t with
  | case1 t => exact List.append_nil t
  | case2 => rfl
  | case3 => rfl
  | case4 fuel s t body tail hcut ih =>
    rw [hcut] at ih
    exact congrArg (.char '\\' :: s :: ·) ih
  | case5 fuel t name rest hcolon body tail hcut ih =>
    rw [hcut] at ih
    rw [cutColon_eq hcolon, ← ih]
    simp
  | case6 fuel t hcolon body tail hcut ih =>
    rw [hcut] at ih
    exact congrArg (.char '[' :: ·) ih
  | case7 fuel s t hclose hescape hopen body tail hcut ih =>
    rw [hcut] at ih
    exact congrArg (s :: ·) ih

/-- The scan takes a symbol at least, if there is one. -/
theorem eq_nil_of_cutInside (h : (cutInside t).1 = []) : t = [] := by
  have hrest : (cutInside t).2 = t := by simpa only [h, List.nil_append] using cutInside_append t
  by_contra ht
  exact RuleFile.cutBody_ne_nil (Prod.ext h hrest) ht rfl

/-- The class takes what stands in front of `rest`, and goes on there. -/
def Passes (front rest : Text) : Prop :=
  cutInside (front ++ rest) = (front ++ (cutInside rest).1, (cutInside rest).2)

namespace Passes

theorem nil (rest : Text) : Passes [] rest := rfl

theorem append (h : Passes front (tail ++ rest)) (htail : Passes tail rest) :
    Passes (front ++ tail) rest := by
  rw [Passes, List.append_assoc, h, htail, List.append_assoc]

theorem cons (h : Passes [s] (t ++ rest)) (ht : Passes t rest) : Passes (s :: t) rest := h.append ht

theorem escape (s : Symbol) (rest : Text) : Passes [.char '\\', s] rest := by
  have hrest : cutBody (rest.length + 1) rest = cutInside rest := cutBody_eq (Nat.le_succ _)
  rw [Passes, ← hrest]
  rfl

/-- A symbol that neither closes the class nor starts an escape or a name. -/
theorem symbol (hclose : s ≠ .char ']') (hback : s ≠ .char '\\')
    (hopen : s = .char '[' → ∀ t, rest = .char ':' :: t → cutColon t = none) : Passes [s] rest := by
  have hrest : cutBody rest.length rest = cutInside rest := rfl
  rw [Passes, cutInside]
  by_cases hname : s = .char '[' ∧ ∃ t, rest = .char ':' :: t
  · obtain ⟨rfl, t, rfl⟩ := hname
    show cutBody (t.length + 1 + 1) (.char '[' :: .char ':' :: t) = _
    rw [cutBody, hopen rfl t rfl, ← hrest]
    rfl
  · show cutBody (rest.length + 1) (s :: rest) = _
    rw [cutBody, hrest]
    · rfl
    · exact hclose
    · exact fun _ _ hs _ => hback hs
    · exact fun t hs ht => hname ⟨hs, t, ht⟩

/-- A name. -/
theorem named (h : cutColon (name ++ .char ':' :: .char ']' :: rest) = some (name, rest)) :
    Passes (.char '[' :: .char ':' :: (name ++ [.char ':', .char ']'])) rest := by
  have hrest : cutBody (name.length + rest.length + 3) rest = cutInside rest :=
    cutBody_eq (by omega)
  have htext : .char '[' :: .char ':' :: (name ++ [.char ':', .char ']']) ++ rest =
      .char '[' :: .char ':' :: (name ++ .char ':' :: .char ']' :: rest) := by simp
  have hlength :
    (.char '[' :: .char ':' :: (name ++ .char ':' :: .char ']' :: rest) : Text).length =
      name.length + rest.length + 3 + 1 := by
    simp only [List.length_cons, List.length_append]
    omega
  rw [Passes, htext, cutInside, hlength, cutBody, h, ← hrest]
  simp

theorem mute (h : ∀ x ∈ front, Mute x) (rest : Text) : Passes front rest := by
  induction front with
  | nil => exact nil rest
  | cons s front ih =>
    obtain ⟨⟨hclose, hopen, hback⟩, hfront⟩ := List.forall_mem_cons.mp h
    exact cons (symbol hclose hback fun heq => absurd heq hopen) (ih hfront)

/-- A hyphen means nothing to the scan. -/
theorem hyphen (h : Passes t rest) : Passes (.char '-' :: t) rest := cons (mute (by decide) _) h

/-- A symbol or an escape, if it does not close the class, and is no bracket that seems to open a
name. -/
theorem glyph (hg : Glyph g) (hclose : g ≠ [.char ']'])
    (hopen : g = [.char '['] → ∀ t, rest = .char ':' :: t → cutColon t = none) : Passes g rest := by
  cases hg with
  | symbol hs =>
    refine symbol ?_ hs ?_
    · rintro rfl
      exact hclose rfl
    · rintro rfl
      exact hopen rfl
  | escape s hmore => exact (escape s _).append (mute hmore rest)

end Passes

/-! ## Brackets at the end of a range -/

/-- A text that ends with one symbol ends with no other one. -/
theorem eq_of_concat {s s' : Symbol} (h : t ++ [.char '-', s] = u ++ [s']) : s = s' := by
  rw [List.append_cons] at h
  exact (List.cons.inj (List.append_inj' h rfl).2).1

/-- An escape does not end with a bracket behind a hyphen. -/
theorem eq_bracket_of_glyph (hg : Glyph g) (h : t ++ [.char '-', .char '['] = u ++ g) :
    g = [.char '['] := by
  cases hg with
  | symbol hs => rw [eq_of_concat h]
  | @escape s more hmore =>
    rcases List.eq_nil_or_concat more with rfl | ⟨more, x, rfl⟩
    · obtain ⟨-, hend⟩ := List.append_inj' h rfl
      cases hend
    · have hconcat : t ++ [.char '-', .char '['] = (u ++ .char '\\' :: s :: more) ++ [x] := by
        simpa using h
      obtain rfl := eq_of_concat hconcat
      exact absurd rfl (hmore _ (by simp)).2.1

theorem not_suffix_name (name : Text) :
    ¬[.char '-', .char '['] <:+ .char '[' :: .char ':' :: (name ++ [.char ':', .char ']']) := by
  rintro ⟨front, hfront⟩
  have htext : (.char '[' :: .char ':' :: (name ++ [.char ':', .char ']']) : Text) =
      .char '[' :: .char ':' :: (name ++ [.char ':']) ++ [.char ']'] := by simp
  rw [htext] at hfront
  exact absurd (eq_of_concat hfront) (by decide)

/-- Only a range ends with a bracket behind a hyphen. -/
theorem exists_of_suffix (hitem : ItemText rest item) (h : [.char '-', .char '['] <:+ item) :
    ∃ lo, Glyph lo ∧ item = lo ++ [.char '-', .char '['] ∧ lo ≠ [.char ']'] := by
  cases hitem with
  | name hname => exact absurd h (not_suffix_name _)
  | single hg hname =>
    obtain ⟨front, hfront⟩ := h
    obtain rfl := eq_bracket_of_glyph (u := []) hg hfront
    have hlength := congrArg List.length hfront
    rw [List.length_append, List.length_cons] at hlength
    cases hlength
  | @range lo hi hlo hhi hclose hfirst =>
    obtain ⟨front, hfront⟩ := h
    obtain rfl :=
      eq_bracket_of_glyph (u := lo ++ [.char '-']) hhi (hfront.trans (List.append_cons _ _ _))
    exact ⟨lo, hlo, rfl, fun heq => hfirst heq rfl⟩

/-- The class passes an item that does not start with a closing bracket, unless the item ends with a
bracket that seems to open a name. -/
theorem passes_item (hitem : ItemText rest item) (hhead : item.head? ≠ some (.char ']'))
    (h : [.char '-', .char '['] <:+ item → ∀ t, rest = .char ':' :: t → cutColon t = none) :
    Passes item rest := by
  cases hitem with
  | name hname => exact .named (cutColon_name hname rest)
  | single hg hname =>
    refine .glyph hg ?_ ?_
    · rintro rfl
      exact hhead rfl
    · rintro rfl t rfl
      exact hname t rfl
  | @range lo hi hlo hhi hclose hfirst =>
    refine Passes.append (.glyph hlo ?_ ?_) (.hyphen (.glyph hhi hclose ?_))
    · rintro rfl
      exact hhead rfl
    · rintro rfl t ⟨⟩
    · rintro rfl
      exact h (List.suffix_append lo _)

/-- Behind a closing bracket that stands first in a class, an item is passed as well. -/
theorem passes_first (hitem : ItemText rest (.char ']' :: item)) :
    Passes item rest ∧ ¬[.char '-', .char '['] <:+ .char ']' :: item := by
  refine ⟨?_, fun h => ?_⟩
  · generalize hfirst : .char ']' :: item = whole at hitem
    cases hitem with
    | name hname => cases hfirst
    | single hg hname =>
      subst hfirst
      cases hg
      exact .nil rest
    | @range lo hi hlo hhi hclose hopen =>
      cases hlo with
      | symbol hs =>
        obtain ⟨rfl, rfl⟩ := List.cons.inj hfirst
        exact .hyphen (.glyph hhi hclose fun heq => absurd heq (hopen rfl))
      | escape s hmore => cases hfirst
  · obtain ⟨lo, hlo, htext, hne⟩ := exists_of_suffix hitem h
    cases hlo with
    | symbol hs =>
      obtain ⟨rfl, -⟩ := List.cons.inj htext
      exact hne rfl
    | escape s hmore => cases htext

/-- Of a range that ends with a bracket, everything else is passed. -/
theorem passes_range {lo : Text} (hlo : Glyph lo) (hclose : lo ≠ [.char ']']) (rest : Text) :
    Passes (lo ++ [.char '-']) (.char '[' :: rest) :=
  .append (.glyph hlo hclose fun _ t => nofun) (.mute (by decide) _)

/-- The item is a range that ends with a bracket, and a colon follows it. The items that are left
hold no `:]`, but there is one if the bracket that closes the class and what follows it are taken
in. -/
def Misleads (rest item after : Text) : Prop :=
  [.char '-', .char '['] <:+ item ∧ after.head? = some (.char ':') ∧
    ¬[.char ':', .char ']'] <:+: after.tail ∧
    [.char ':', .char ']'] <:+: after.tail ++ .char ']' :: rest

/-- Some item misleads the scan of a class with these items, if `rest` follows the class. -/
def Misled (rest : Text) : List Text → Prop
  | [] => False
  | item :: items => Misleads rest item items.flatten ∨ Misled rest items

instance (rest item after : Text) : Decidable (Misleads rest item after) :=
  inferInstanceAs (Decidable (_ ∧ _ ∧ _ ∧ _))

instance decidableMisled (rest : Text) : ∀ items : List Text, Decidable (Misled rest items)
  | [] => inferInstanceAs (Decidable False)
  | item :: items =>
    have := decidableMisled rest items
    inferInstanceAs (Decidable (Misleads rest item items.flatten ∨ Misled rest items))

end

end Munch.Rule
