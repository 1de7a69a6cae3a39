import Munch.Proofs.ClassScan

/-!
# Where a class in brackets ends

The scan that looks for the end of a class takes its items one after the other. A bracket at the end
of a range can mislead it, and then it takes what follows the class for a part of it.

* `EndsIn rest t misled`: the scan takes `t` and the bracket behind it. It takes more only if it is
  misled.

Results:
* `exists_behind_name`: the end of a name in a class is the end of an item, so that the scan finds
  back.
* `endsIn_items`: where the scan of the items of a class ends.
* **`class_end_iff`**: the scan ends where the class ends as it is read, if and only if it is not
  misled or nothing follows the class. It never ends inside of the class.
-/

namespace Munch.Rule

open Pattern

section

variable {fuel : Nat} {s : Symbol} {t u front rest name tail g item : Text} {items : List Text}

/-! ## Ends of classes -/

theorem head?_item (h : ItemText rest item) (t : Text) : (item ++ t).head? = item.head? := by
  cases h with
  | name hname => rfl
  | single hg hname => cases hg <;> rfl
  | range hlo hhi hclose hfirst => cases hlo <;> rfl

/-- The bracket that closes a class does not start an item behind the first one. -/
theorem head?_items (h : ItemTexts rest false items) : items.flatten.head? ≠ some (.char ']') := by
  cases h with
  | nil => exact nofun
  | cons hitem hfirst h =>
    rw [List.flatten_cons, head?_item hitem]
    exact hfirst.resolve_left Bool.false_ne_true

/-- Neither does it follow a colon that an item behind the first one starts with. -/
theorem head?_behind_colon (h : ItemTexts rest false items) (heq : items.flatten = .char ':' :: t) :
    t.head? ≠ some (.char ']') := by
  cases h with
  | nil => cases heq
  | cons hitem hfirst h =>
    cases hitem with
    | name hname => cases heq
    | single hg hname =>
      cases hg with
      | symbol hs =>
        obtain ⟨-, rfl⟩ := List.cons.inj heq
        exact head?_items h
      | escape s hmore => cases heq
    | range hlo hhi hclose hopen =>
      cases hlo with
      | symbol hs =>
        obtain ⟨-, rfl⟩ := List.cons.inj heq
        exact nofun
      | escape s hmore => cases heq

/-- No bracket misleads if there is the end of a name among the items behind it. -/
theorem not_misleads (h : ItemTexts rest false items)
    (hcut : cutColon items.flatten = some (name, tail)) : ¬Misleads rest item items.flatten := by
  rintro ⟨-, hcolon, hinside, -⟩
  obtain ⟨t, heq⟩ := List.head?_eq_some_iff.mp hcolon
  rw [heq] at hcut hinside
  rw [cutColon_cons fun _ => head?_behind_colon h heq] at hcut
  obtain ⟨p, hcut, -⟩ := Option.map_eq_some_iff.mp hcut
  exact hinside (infix_of_cutColon hcut)

/-- The end of a name among the items is the end of an item. -/
theorem exists_behind_name (h : ItemTexts rest false items)
    (hcut : cutColon items.flatten = some (name, tail)) :
    ∃ behind : List Text, behind.length < items.length ∧ ItemTexts rest false behind ∧
      tail = behind.flatten ∧ (Misled rest items ↔ Misled rest behind) := by
  induction items generalizing name with
  | nil => cases hcut
  | cons item items ih =>
    cases h with
    | cons hitem hfirst h =>
      have hother (hpassed : cutColon (item ++ items.flatten) =
          (cutColon items.flatten).map fun p => (item ++ p.1, p.2)) :
          ∃ behind : List Text, behind.length < (item :: items).length ∧
            ItemTexts rest false behind ∧
            tail = behind.flatten ∧ (Misled rest (item :: items) ↔ Misled rest behind) := by
        rw [List.flatten_cons, hpassed] at hcut
        obtain ⟨⟨name, tail⟩, hitems, heq⟩ := Option.map_eq_some_iff.mp hcut
        cases heq
        obtain ⟨behind, hlength, hbehind, rfl, hmisled⟩ := ih h hitems
        exact ⟨behind, Nat.lt_succ_of_lt hlength, hbehind, rfl,
          (or_iff_right (not_misleads h hitems)).trans hmisled⟩
      cases hitem with
      | @name word hword =>
        refine ⟨items, Nat.lt_succ_self _, h, ?_, or_iff_right ?_⟩
        · have hword' : cutColon (.char ':' :: (word ++ .char ':' :: .char ']' :: items.flatten)) =
              some (.char ':' :: word, items.flatten) := by
            rw [← List.cons_append]
            exact cutColon_name (List.forall_mem_cons.mpr ⟨by decide, hword⟩) _
          have htext :
            ((.char '[' :: .char ':' :: (word ++ [.char ':', .char ']']) : Text) :: items).flatten =
              .char '[' :: .char ':' :: (word ++ .char ':' :: .char ']' :: items.flatten) := by simp
          rw [htext, cutColon_cons (by rintro ⟨⟩), hword'] at hcut
          cases hcut
          rfl
        · exact fun h => not_suffix_name word h.1
      | single hg hname => exact hother (cutColon_glyph hg (head?_items h))
      | @range lo hi hlo hhi hclose hopen =>
        refine hother ?_
        rw [List.append_assoc, cutColon_glyph hlo (by rintro ⟨⟩), List.cons_append,
          cutColon_cons (by rintro ⟨⟩), cutColon_glyph hhi (head?_items h), Option.map_map,
          Option.map_map]
        congr 1
        funext p
        simp

/-- The scan takes `t` and the bracket behind it. It takes more, if there is more, just if it is
misled. -/
def EndsIn (rest t : Text) (misled : Prop) : Prop :=
  ∃ more tail, rest = more ++ tail ∧
    cutInside (t ++ .char ']' :: rest) = (t ++ .char ']' :: more, tail) ∧
    (more = [] ↔ rest = [] ∨ ¬misled)

theorem EndsIn.passes {misled : Prop} (h : EndsIn rest t misled)
    (hpasses : Passes front (t ++ .char ']' :: rest)) : EndsIn rest (front ++ t) misled := by
  obtain ⟨more, tail, hrest, hcut, hmore⟩ := h
  refine ⟨more, tail, hrest, ?_, hmore⟩
  rw [List.append_assoc, hpasses, hcut, List.append_assoc]

theorem EndsIn.congr {p q : Prop} (h : EndsIn rest t p) (hpq : p ↔ q) : EndsIn rest t q := by
  rwa [← propext hpq]

theorem EndsIn.here (rest : Text) : EndsIn rest [] False :=
  ⟨[], rest, rfl, rfl, by simp⟩

/-- If there is no end of a name inside of a class, the next one includes the bracket that closes
the class, or follows it. -/
theorem exists_beyond (hcut : cutColon (t ++ .char ']' :: rest) = some (name, tail))
    (hinside : cutColon t = none) :
    ∃ more, name ++ [.char ':', .char ']'] = t ++ .char ']' :: more ∧ rest = more ++ tail := by
  have htext : t ++ [.char ']'] ++ rest = name ++ [.char ':', .char ']'] ++ tail := by
    simpa using cutColon_eq hcut
  obtain ⟨more, hname, hrest⟩ | ⟨more, ht, htail⟩ := List.append_eq_append_iff.mp htext
  · exact ⟨more, by rw [hname, List.append_assoc]; rfl, hrest⟩
  · rcases List.eq_nil_or_concat more with rfl | ⟨more, x, rfl⟩
    · exact ⟨[], by rw [← List.append_nil (name ++ _), ← ht], htail.symm⟩
    · rw [List.concat_eq_append, ← List.append_assoc] at ht
      obtain ⟨rfl, -⟩ := List.append_inj' ht rfl
      exact absurd ⟨name, more, rfl⟩ (cutColon_eq_none hinside)

/-- A bracket that seems to open a name which ends behind the class makes the scan go on there. -/
theorem EndsIn.beyond (hcut : cutColon (t ++ .char ']' :: rest) = some (name, tail))
    (hinside : cutColon t = none) : EndsIn rest (.char '[' :: .char ':' :: t) True := by
  obtain ⟨more, hname, rfl⟩ := exists_beyond hcut hinside
  have hpasses := Passes.named (cutColon_eq hcut ▸ hcut)
  rw [hname] at hpasses
  refine ⟨more ++ (cutInside tail).1, (cutInside tail).2, ?_, ?_, ?_⟩
  · rw [List.append_assoc, cutInside_append]
  · simpa [Passes] using hpasses
  · rw [List.append_eq_nil_iff, List.append_eq_nil_iff, not_true_eq_false, or_false]
    refine and_congr_right fun _ => ⟨eq_nil_of_cutInside, ?_⟩
    rintro rfl
    rfl

/-- A range that ends with a bracket, where a name seems to begin: the scan goes on behind that
name, if it ends in the class. -/
theorem endsIn_named {lo word v : Text} (h : ItemTexts rest false items)
    (hlo : ∀ u, Passes (lo ++ [.char '-']) (.char '[' :: u)) (ht : items.flatten = .char ':' :: t)
    (hinside : cutColon t = some (word, v))
    (hbehind : ∀ behind : List Text, behind.length < items.length → ItemTexts rest false behind →
      EndsIn rest behind.flatten (Misled rest behind)) :
    EndsIn rest ((lo ++ [.char '-', .char '[']) :: items).flatten
      (Misled rest ((lo ++ [.char '-', .char '[']) :: items)) := by
  have hcolon : cutColon items.flatten = some (.char ':' :: word, v) := by
    rw [ht, cutColon_cons fun _ => head?_behind_colon h ht, hinside]
    rfl
  obtain ⟨behind, hless, hitems, rfl, hmisled⟩ := exists_behind_name h hcolon
  have hword := cutColon_append hinside (.char ']' :: rest)
  rw [cutColon_eq hinside, List.append_assoc] at hword
  have hgoes := (hbehind behind hless hitems).passes ((hlo _).append (.named hword))
  have htext : ((lo ++ [.char '-', .char '[']) :: items).flatten = lo ++ [.char '-'] ++
      .char '[' :: .char ':' :: (word ++ [.char ':', .char ']']) ++ behind.flatten := by
    simp [ht, cutColon_eq hinside]
  rw [htext]
  exact hgoes.congr ((or_iff_right (not_misleads h hcolon)).trans hmisled).symm

/-- If it ends behind the class then the scan is misled. -/
theorem endsIn_beyond {lo : Text} (hends : [.char '-', .char '['] <:+ lo ++ [.char '-', .char '['])
    (hlo : ∀ u, Passes (lo ++ [.char '-']) (.char '[' :: u)) (ht : items.flatten = .char ':' :: t)
    (hinside : cutColon t = none) (hcut : cutColon (t ++ .char ']' :: rest) = some (name, tail)) :
    EndsIn rest ((lo ++ [.char '-', .char '[']) :: items).flatten
      (Misled rest ((lo ++ [.char '-', .char '[']) :: items)) := by
  have hbeyond := (EndsIn.beyond hcut hinside).passes (hlo _)
  have htext : ((lo ++ [.char '-', .char '[']) :: items).flatten =
      lo ++ [.char '-'] ++ .char '[' :: .char ':' :: t := by simp [ht]
  rw [htext]
  refine hbeyond.congr (iff_of_true trivial (.inl ⟨hends, ?_, ?_, ?_⟩))
  · rw [ht]
    rfl
  · rw [ht]
    exact cutColon_eq_none hinside
  · rw [ht]
    exact infix_of_cutColon hcut

/-- Any other item is passed. -/
theorem endsIn_cons (hitem : ItemText (items.flatten ++ .char ']' :: rest) item)
    (hhead : item.head? ≠ some (.char ']')) (hitems : EndsIn rest items.flatten (Misled rest items))
    (hplain : ¬([.char '-', .char '['] <:+ item ∧
      ∃ t p, items.flatten = .char ':' :: t ∧ cutColon (t ++ .char ']' :: rest) = some p)) :
    EndsIn rest (item :: items).flatten (Misled rest (item :: items)) := by
  refine (hitems.passes (passes_item hitem hhead fun hends t ht => ?_)).congr (or_iff_right ?_).symm
  · rw [Option.eq_none_iff_forall_ne_some]
    intro p hp
    cases hflat : items.flatten with
    | nil =>
      rw [hflat] at ht
      cases ht
    | cons s u =>
      rw [hflat] at ht
      obtain ⟨rfl, rfl⟩ := List.cons.inj ht
      exact hplain ⟨hends, u, p, hflat, hp⟩
  · rintro ⟨hends, hcolon, -, hbehind⟩
    obtain ⟨t, ht⟩ := List.head?_eq_some_iff.mp hcolon
    rw [ht] at hbehind
    obtain ⟨p, hp⟩ := exists_of_infix hbehind
    exact hplain ⟨hends, t, p, ht, hp⟩

/-- **The scan of a class ends with the bracket behind the items, unless it is misled.** -/
theorem endsIn_items (h : ItemTexts rest false items) :
    EndsIn rest items.flatten (Misled rest items) := by
  -- The scan may leap over items, so the induction is on their number.
  induction hlength : items.length using Nat.strong_induction_on generalizing items with
  | h n ih =>
    subst hlength
    cases h with
    | nil => exact .here rest
    | @cons _ item items hitem hfirst h =>
      by_cases hopens : [.char '-', .char '['] <:+ item ∧
          ∃ t p, items.flatten = .char ':' :: t ∧ cutColon (t ++ .char ']' :: rest) = some p
      · obtain ⟨hends, t, ⟨name, tail⟩, ht, hcut⟩ := hopens
        obtain ⟨lo, hlo, rfl, hclose⟩ := exists_of_suffix hitem hends
        cases hinside : cutColon t with
        | some p =>
          exact endsIn_named h (passes_range hlo hclose) ht hinside fun behind hless hbehind =>
            ih behind.length (Nat.lt_succ_of_lt hless) hbehind rfl
        | none => exact endsIn_beyond hends (passes_range hlo hclose) ht hinside hcut
      · exact endsIn_cons hitem (hfirst.resolve_left Bool.false_ne_true)
          (ih items.length (Nat.lt_succ_self _) h rfl) hopens

/-- What is split off first is the sign, and a closing bracket behind it. -/
theorem cutFirst_eq (t : Text) : ∃ sign, t = sign ++ (cutCaret t).2 ∧
    ((∃ u, (cutCaret t).2 = .char ']' :: u ∧ cutFirst t = (sign ++ [.char ']'], u)) ∨
      (cutCaret t).2.head? ≠ some (.char ']') ∧ cutFirst t = (sign, (cutCaret t).2)) := by
  have hopen {u : Text} (h : ∀ v, u = .char ']' :: v → False) : u.head? ≠ some (.char ']') := by
    intro heq
    obtain ⟨v, hv⟩ := List.head?_eq_some_iff.mp heq
    exact h v hv
  fun_cases cutFirst t with
  | case1 u => exact ⟨[.char '^'], rfl, .inl ⟨u, rfl, rfl⟩⟩
  | case2 u hclose => exact ⟨[.char '^'], rfl, .inr ⟨hopen hclose, rfl⟩⟩
  | case3 u => exact ⟨[], rfl, .inl ⟨u, rfl, rfl⟩⟩
  | case4 t hboth hcaret hclose =>
    have ht : cutCaret t = (false, t) := by
      rw [cutCaret]
      exact hcaret
    rw [ht]
    exact ⟨[], rfl, .inr ⟨hopen hclose, rfl⟩⟩

theorem cutClass_eq (h : cutFirst t = (front, u)) :
    cutClass (.char '[' :: t) = (.char '[' :: (front ++ (cutInside u).1), (cutInside u).2) := by
  rw [cutClass, List.drop_one, List.tail_cons, h]
  rfl

/-- A closing bracket that stands first in a class is split off before the scan. -/
theorem endsIn_first (h : ItemTexts rest true ((.char ']' :: item) :: items)) :
    EndsIn rest (item ++ items.flatten) (Misled rest ((.char ']' :: item) :: items)) := by
  cases h with
  | cons hitem hfirst h =>
    obtain ⟨hpasses, hends⟩ := passes_first hitem
    exact ((endsIn_items h).passes hpasses).congr
      (or_iff_right fun hmisleads => hends hmisleads.1).symm

/-- **Where the scan of a class that can be read ends.** -/
theorem cutClass_of_readClass {fold : Bool} {set : CharSet}
    (h : readClass fold (.char '[' :: t) = .ok (set, rest)) :
    ∃ cls more tail, .char '[' :: t = cls ++ rest ∧ rest = more ++ tail ∧
      cutClass (.char '[' :: t) = (cls ++ more, tail) ∧
      (more = [] ↔ rest = [] ∨ ¬Misled rest (itemsOf fold (.char '[' :: t))) := by
  obtain ⟨htext, hitems⟩ := readClass_ok h
  rw [List.drop_one, List.tail_cons] at htext
  obtain ⟨sign, ht, hfirst⟩ := cutFirst_eq t
  generalize itemsOf fold (.char '[' :: t) = items at htext hitems ⊢
  -- With the sign, and with what stands first, the scan takes the class.
  have hends (first : Text) {u v : Text} (hu : (cutCaret t).2 = first ++ u)
    (hv : u = v ++ .char ']' :: rest)
      (hcut : cutFirst t = (sign ++ first, u)) (h : EndsIn rest v (Misled rest items)) :
      ∃ cls more tail, .char '[' :: t = cls ++ rest ∧ rest = more ++ tail ∧
        cutClass (.char '[' :: t) = (cls ++ more, tail) ∧
          (more = [] ↔ rest = [] ∨ ¬Misled rest items) := by
    obtain ⟨more, tail, hrest, hinside, hmore⟩ := h
    refine ⟨.char '[' :: (sign ++ first ++ v ++ [.char ']']), more, tail, ?_, hrest, ?_, hmore⟩
    · rw [ht, hu, hv]
      simp
    · rw [cutClass_eq hcut, hv, hinside]
      simp
  cases hitems with
  | @cons _ item items hitem hclose h =>
    have hhead := head?_item hitem (items.flatten ++ .char ']' :: rest)
    rw [List.flatten_cons, List.append_assoc] at htext
    rw [← htext] at hhead
    obtain ⟨u, hu, hcut⟩ | ⟨hne, hcut⟩ := hfirst
    · rw [hu] at hhead htext
      obtain ⟨item, rfl⟩ := List.head?_eq_some_iff.mp hhead.symm
      refine hends [.char ']'] hu ?_ hcut (endsIn_first (.cons hitem hclose h))
      rw [(List.cons.inj htext).2, List.append_assoc]
      rfl
    · rw [hhead] at hne
      refine hends [] rfl (htext.trans ?_) (by rw [List.append_nil, hcut])
        (endsIn_items (.cons hitem (.inr hne) h))
      rw [List.flatten_cons, List.append_assoc]

/-! ## Stray bytes -/

/-- A symbol that is no stray byte and not U+FFFD is what it was before a text was repaired. -/
theorem shown_eq {c : Char} (hc : c ≠ replacement) :
    Symbol.char s.shown = .char c ↔ s = .char c := by
  cases s with
  | char d => rfl
  | stray b => simp [Symbol.shown, hc.symm]

theorem cutColon_repaired (t : Text) :
    cutColon t.repaired = (cutColon t).map fun p => (p.1.repaired, p.2.repaired) := by
  fun_induction cutColon t with
  | case1 => rfl
  | case2 s t hne ih =>
    show cutColon (.char s.shown :: Text.repaired t) = _
    rw [cutColon_cons, ih, Option.map_map, Option.map_map]
    · rfl
    · intro hs hhead
      cases t with
      | nil => cases hhead
      | cons x t =>
        exact hne t ((shown_eq (by decide)).mp hs)
          (congrArg (· :: t) ((shown_eq (by decide)).mp (Option.some.inj hhead)))
  | case3 => rfl

theorem cutBody_repaired (fuel : Nat) (t : Text) :
    cutBody fuel t.repaired = ((cutBody fuel t).1.repaired, (cutBody fuel t).2.repaired) := by
  fun_induction cutBody fuel t with
  | case1 t => rfl
  | case2 => rfl
  | case3 => rfl
  | case4 fuel s t body tail hcut ih =>
    show cutBody (fuel + 1) (.char '\\' :: .char s.shown :: Text.repaired t) = _
    rw [cutBody, ih, hcut]
    rfl
  | case5 fuel t name rest hcolon body tail hcut ih =>
    show cutBody (fuel + 1) (.char '[' :: .char ':' :: Text.repaired t) = _
    rw [cutBody, cutColon_repaired, hcolon]
    dsimp only [Option.map_some]
    rw [ih, hcut]
    simp [Text.repaired, Symbol.shown]
  | case6 fuel t hcolon body tail hcut ih =>
    show cutBody (fuel + 1) (.char '[' :: .char ':' :: Text.repaired t) = _
    rw [cutBody, cutColon_repaired, hcolon]
    dsimp only [Option.map_none]
    have hcolon' : cutBody fuel (.char ':' :: Text.repaired t) = _ := ih
    rw [hcolon', hcut]
    rfl
  | case7 fuel s t hclose hescape hopen body tail hcut ih =>
    show cutBody (fuel + 1) (.char s.shown :: Text.repaired t) = _
    rw [cutBody, ih, hcut]
    · rfl
    · exact fun hs => hclose ((shown_eq (by decide)).mp hs)
    · intro x u hs ht
      obtain ⟨x, v, rfl, -, -⟩ := List.map_eq_cons_iff.mp ht
      exact hescape x v ((shown_eq (by decide)).mp hs) rfl
    · intro u hs ht
      obtain ⟨x, v, rfl, hx, -⟩ := List.map_eq_cons_iff.mp ht
      exact hopen v ((shown_eq (by decide)).mp hs)
        (congrArg (· :: v) ((shown_eq (by decide)).mp hx))

theorem cutFirst_repaired (t : Text) :
    cutFirst t.repaired = ((cutFirst t).1.repaired, (cutFirst t).2.repaired) := by
  have hcons {u v : Text} {c : Char} (hc : c ≠ replacement) (h : Text.repaired u = .char c :: v) :
      ∃ v, u = .char c :: v := by
    obtain ⟨x, v, rfl, hx, -⟩ := List.map_eq_cons_iff.mp h
    exact ⟨v, congrArg (· :: v) ((shown_eq hc).mp hx)⟩
  fun_cases cutFirst t with
  | case1 u => rfl
  | case2 u hclose =>
    show cutFirst (.char '^' :: Text.repaired u) = _
    rw [cutFirst]
    · rfl
    · intro v hv
      obtain ⟨v, rfl⟩ := hcons (by decide) hv
      exact hclose v rfl
  | case3 u => rfl
  | case4 t hboth hcaret hclose =>
    rw [cutFirst]
    · rfl
    · intro v hv
      obtain ⟨x, u, rfl, hx, hu⟩ := List.map_eq_cons_iff.mp hv
      obtain ⟨w, rfl⟩ := hcons (by decide) hu
      exact hboth w (congrArg (· :: _) ((shown_eq (by decide)).mp hx))
    · intro v hv
      obtain ⟨u, rfl⟩ := hcons (by decide) hv
      exact hcaret u rfl
    · intro v hv
      obtain ⟨u, rfl⟩ := hcons (by decide) hv
      exact hclose u rfl

theorem cutClass_repaired (t : Text) :
    cutClass (Text.repaired (.char '[' :: t)) =
      ((cutClass (.char '[' :: t)).1.repaired, (cutClass (.char '[' :: t)).2.repaired) := by
  have hcut : cutFirst t = ((cutFirst t).1, (cutFirst t).2) := rfl
  have hlength : (Text.repaired (cutFirst t).2).length = (cutFirst t).2.length := List.length_map _
  show cutClass (.char '[' :: Text.repaired t) = _
  rw [cutClass_eq (cutFirst_repaired t), cutClass_eq hcut, cutInside, hlength, cutBody_repaired]
  simp [Text.repaired, Symbol.shown, cutInside]

/-! ## Classes and quoted literals -/

/-- A class is copied as the scan takes it. -/
theorem groupLiteralsFrom_class (opening : Text) (fuel : Nat) (t : Text) :
    groupLiteralsFrom opening (fuel + 1) (Text.repaired (.char '[' :: t)) =
      (groupLiteralsFrom opening fuel (cutClass (Text.repaired (.char '[' :: t))).2).map
        ((cutClass (Text.repaired (.char '[' :: t))).1 ++ ·) := rfl

/-- **The scan of a class that can be read ends with the class, if and only if it is not misled or
nothing follows.** It never ends inside of the class: the class is copied as it is, and literals are
looked for behind what the scan takes. -/
theorem class_end_iff {fold : Bool} {set : CharSet}
    (hread : readClass fold (.char '[' :: t) = .ok (set, rest)) :
    ∃ cls : Text, .char '[' :: t = cls ++ rest ∧
      (cutClass (Text.repaired (.char '[' :: t)) = (cls.repaired, rest.repaired) ↔
        rest = [] ∨ ¬Misled rest (itemsOf fold (.char '[' :: t))) ∧
      ∃ more tail : Text, rest = more ++ tail ∧
        (more = [] ↔ rest = [] ∨ ¬Misled rest (itemsOf fold (.char '[' :: t))) ∧
        ∀ opening fuel, groupLiteralsFrom opening (fuel + 1) (Text.repaired (.char '[' :: t)) =
          (groupLiteralsFrom opening fuel tail.repaired).map
            (Text.repaired (cls ++ more) ++ ·) := by
  obtain ⟨cls, more, tail, htext, hrest, hcut, hmore⟩ := cutClass_of_readClass hread
  have hrepaired : cutClass (Text.repaired (.char '[' :: t)) =
      (Text.repaired (cls ++ more), tail.repaired) := by
    rw [cutClass_repaired, hcut]
  refine ⟨cls, htext, ?_, more, tail, hrest, hmore, ?_⟩
  · rw [← hmore, hrepaired]
    constructor
    · intro h
      have hlength := congrArg (fun p => p.2.length) h
      simp only [Text.repaired, List.length_map, hrest, List.length_append] at hlength
      exact List.length_eq_zero_iff.mp (by omega)
    · rintro rfl
      rw [List.append_nil, hrest]
      rfl
  · intro opening fuel
    rw [groupLiteralsFrom_class, hrepaired]

end

/-- A class with a leading bracket, an escaped one, a category, a name, and a range that ends with a
bracket and has a colon and another name behind it. -/
def twistedClass : Text := "^]A-\\]\\p\x7bZl\x7d[:alpha:]!-[:[:digit:]\"x]"

/-- A literal, and what would close a name. -/
def twistedRest : Text := "\"a+\":]"

theorem class_end_iff_twisted :
    (∃ set, readClass false (.char '[' :: (twistedClass ++ twistedRest)) = .ok (set, twistedRest)) ∧
      ¬Misled twistedRest (itemsOf false (.char '[' :: (twistedClass ++ twistedRest))) ∧
      cutClass (Text.repaired (.char '[' :: (twistedClass ++ twistedRest))) =
        (Text.repaired (.char '[' :: twistedClass), twistedRest.repaired) := by
  have hrest : (readClass false (.char '[' :: (twistedClass ++ twistedRest))).map (·.2) =
      .ok twistedRest := by
    decide +kernel
  obtain ⟨set, hread⟩ : ∃ set,
      readClass false (.char '[' :: (twistedClass ++ twistedRest)) = .ok (set, twistedRest) := by
    cases hclass : readClass false (.char '[' :: (twistedClass ++ twistedRest)) with
    | error f =>
      rw [hclass] at hrest
      cases hrest
    | ok p =>
      rw [hclass] at hrest
      exact ⟨p.1, congrArg Except.ok (Prod.ext rfl (Except.ok.inj hrest))⟩
  have hclear :
      ¬Misled twistedRest (itemsOf false (.char '[' :: (twistedClass ++ twistedRest))) := by
    decide +kernel
  obtain ⟨cls, hcls, hcut, -⟩ := class_end_iff hread
  obtain rfl : .char '[' :: twistedClass = cls := List.append_cancel_right (by rw [← hcls]; rfl)
  exact ⟨⟨set, hread⟩, hclear, hcut.mpr (.inr hclear)⟩

/-- A class with a range that ends with a bracket, a colon, and a literal behind the class. -/
def beyondPattern : Text := "[!-[:]\"a.\":]"

/-- Behind a range that ends with a bracket, a colon starts no name: the class ends, and a literal
follows. The scan takes the literal for a part of the class, so that it is not replaced. -/
theorem class_end_beyond :
    (∃ set, readClass false beyondPattern = .ok (set, Text.ofString "\"a.\":]")) ∧
      cutClass beyondPattern = (beyondPattern, []) ∧
      groupLiterals (Text.ofString "(?:") beyondPattern = some beyondPattern ∧
      ¬∀ (fold : Bool) (t rest : Text) (set : CharSet),
        readClass fold (.char '[' :: t) = .ok (set, rest) →
          (cutClass (Text.repaired (.char '[' :: t))).2 = rest.repaired := by
  have hread : readClass false beyondPattern = .ok (.range 33 91, Text.ofString "\"a.\":]") := by
    decide +kernel
  refine ⟨⟨_, hread⟩, by decide +kernel, by decide +kernel, fun h => ?_⟩
  have hcut := h false _ _ _ hread
  exact absurd hcut (by decide +kernel)

end Munch.Rule
