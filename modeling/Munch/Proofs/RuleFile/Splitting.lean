import Munch.Proofs.Quoted
import Munch.Proofs.RuleFile.Entry

/-!
# Where a rule is split

The pattern of a rule ends at the first blank or tab outside of literals and classes. For the
splitter a class ends at the first bracket that closes one. Where quoted literals are replaced it
may go on behind such a bracket: if that is the first symbol of the class, or if it ends a name like
`[:alpha:]`.

* `Parted t`: the text is made of parts that are closed in themselves for the splitter.
* `Place`: what the splitter can be inside of; `Place.Leaves` says that a text closes it, and goes
  on with such parts.
* `IsClass c rest`: behind its opening bracket a class is `c`, if `rest` follows in the pattern.
* `Ordinary c`: no bracket stands first in the class, and none ends a name in it.
* `Whole ok p`: the pattern is made of escapes, literals and classes as they are read when literals
  are replaced, and of symbols that open none of them. All its classes are `ok`.

Results:
* `Place.leaves_splitAt`: the splitter stops behind closed parts only.
* `IsClass.ordinary_iff`: the classes that are the same for both readers.
* `Whole.parted`: a pattern whose classes are closed for the splitter is so itself.
* **`rule_split_iff`**: a rule is split behind its pattern if and only if the pattern is made of
  closed parts.
-/

namespace Munch.RuleFile

open Rule (cutBody cutClass cutFirst readLiteral readLiteral_escape_eq_some
  readLiteral_plain_eq_some literal_induction)

/-! ## Texts that are made of closed parts -/

/-- The text is made of parts that are closed in themselves. -/
def Parted (t : Text) : Prop := ∃ parts : List Part, (∀ p ∈ parts, p.fits = true) ∧ textOf parts = t

/-- What the splitter can be inside of. -/
inductive Place where
  | outside
  | literal
  | cls

/-- The text closes what it starts inside of, and goes on with closed parts. -/
def Place.Leaves (place : Place) (t : Text) : Prop :=
  match place with
  | outside => Parted t
  | literal => Closes '"' t
  | cls => Closes ']' t
where
  Closes (c : Char) (t : Text) : Prop :=
    ∃ (body : List Item) (rest : Text), body.all (Item.fits c) = true ∧ Parted rest ∧
      t = body.flatMap Item.text ++ .char c :: rest

section

variable {c : Char} {s : Symbol} {t u : Text}

theorem Parted.nil : Parted [] := ⟨[], nofun, rfl⟩

/-- A closed part may stand in front. -/
theorem Parted.part {p : Part} (hp : p.fits = true) (h : Parted t) : Parted (p.text ++ t) := by
  obtain ⟨parts, hparts, rfl⟩ := h
  exact ⟨p :: parts, List.forall_mem_cons.mpr ⟨hp, hparts⟩, rfl⟩

theorem Parted.append (ht : Parted t) (hu : Parted u) : Parted (t ++ u) := by
  obtain ⟨parts, hparts, rfl⟩ := ht
  obtain ⟨others, hothers, rfl⟩ := hu
  refine ⟨parts ++ others, fun p hp => ?_, List.flatMap_append⟩
  exact (List.mem_append.mp hp).elim (hparts p) (hothers p)

namespace Place

theorem Leaves.Closes.here (h : Parted t) : Leaves.Closes c (.char c :: t) := ⟨[], t, rfl, h, rfl⟩

/-- An item of a literal or a class stays inside of it. -/
theorem Leaves.Closes.item {i : Item} (hi : i.fits c = true) (h : Leaves.Closes c t) :
    Leaves.Closes c (i.text ++ t) := by
  obtain ⟨body, rest, hbody, hrest, rfl⟩ := h
  exact ⟨i :: body, rest, Bool.and_eq_true_iff.mpr ⟨hi, hbody⟩, hrest,
    (List.append_assoc _ _ _).symm⟩

/-- A quote opens a literal. -/
theorem Leaves.quote (h : literal.Leaves t) : Parted (.char '"' :: t) := by
  obtain ⟨body, rest, hbody, hrest, rfl⟩ := h
  have hpart := hrest.part (p := .literal body) hbody
  rwa [Part.text, List.cons_append, List.append_assoc, List.singleton_append] at hpart

/-- A bracket opens a class. -/
theorem Leaves.bracket (h : cls.Leaves t) : Parted (.char '[' :: t) := by
  obtain ⟨body, rest, hbody, hrest, rfl⟩ := h
  have hpart := hrest.part (p := .cls body) hbody
  rwa [Part.text, List.cons_append, List.append_assoc, List.singleton_append] at hpart

/-- An escape closes nothing. -/
theorem Leaves.escape {place : Place} (h : place.Leaves t) :
    place.Leaves (.char '\\' :: s :: t) := by
  cases place with
  | outside => exact Parted.part (p := .escape s) rfl h
  | literal => exact Closes.item (i := .escape s) rfl h
  | cls => exact Closes.item (i := .escape s) rfl h

/-! ## The splitter -/

/-- The flag of the splitter for literals. -/
def quoted : Place → Bool
  | literal => true
  | outside | cls => false

/-- The flag of the splitter for classes. -/
def inClass : Place → Bool
  | cls => true
  | outside | literal => false

/-- Where the splitter is behind a symbol other than a backslash. -/
def after (s : Symbol) : Place → Place
  | outside => if s.is '"' then literal else if s.is '[' then cls else outside
  | literal => if s.is '"' then outside else literal
  | cls => if s.is ']' then outside else cls

/-- The splitter stops in front of the symbol. -/
def stops (s : Symbol) : Place → Bool
  | outside => s.is ' ' || s.is '\t'
  | literal | cls => false

theorem quoted_after (place : Place) (s : Symbol) :
    (place.after s).quoted = if s.is '"' && !place.inClass then !place.quoted
      else place.quoted := by
  cases place <;> grind [after, quoted, inClass]

theorem inClass_after (place : Place) (s : Symbol) :
    (place.after s).inClass = if s.is '[' && !(place.after s).quoted then true
      else if s.is ']' && !(place.after s).quoted then false else place.inClass := by
  cases place <;> grind [after, quoted, inClass, Symbol.is_iff]

/-- The splitter goes on behind a symbol. -/
theorem splitAt_cons {place : Place} (hs : s.is '\\' = false) (hstops : place.stops s = false)
    (t : Text) :
    splitAt place.quoted place.inClass (s :: t) =
      (splitAt (place.after s).quoted (place.after s).inClass t).map (s :: ·) id := by
  have hgap : ((s.is ' ' || s.is '\t') && !place.quoted && !place.inClass) = false := by
    cases place with
    | outside => rwa [quoted, inClass, Bool.not_false, Bool.and_true, Bool.and_true]
    | literal => rw [quoted, Bool.not_true, Bool.and_false, Bool.false_and]
    | cls => rw [inClass, Bool.not_true, Bool.and_false]
  exact splitAt_symbol hs hgap (quoted_after place s).symm (inClass_after place s).symm t

/-- What closes the place that a symbol leads to closes the place in front of the symbol as well. -/
theorem Leaves.cons {place : Place} (hs : s.is '\\' = false) (hstops : place.stops s = false)
    (h : (place.after s).Leaves t) : place.Leaves (s :: t) := by
  cases place with
  | outside =>
    rw [after] at h
    split at h
    next hquote =>
      obtain rfl := Symbol.is_iff.mp hquote
      exact h.quote
    next hquote =>
      split at h
      next hbracket =>
        obtain rfl := Symbol.is_iff.mp hbracket
        exact h.bracket
      next hbracket =>
        refine Parted.part (p := .symbol s) ?_ h
        simpa [Part.fits, hs, hquote, hbracket, stops] using hstops
  | literal =>
    rw [after] at h
    split at h
    next hquote =>
      obtain rfl := Symbol.is_iff.mp hquote
      exact Closes.here h
    next hquote => exact Closes.item (i := .symbol s) (by simp [Item.fits, hs, hquote]) h
  | cls =>
    rw [after] at h
    split at h
    next hbracket =>
      obtain rfl := Symbol.is_iff.mp hbracket
      exact Closes.here h
    next hbracket => exact Closes.item (i := .symbol s) (by simp [Item.fits, hs, hbracket]) h

/-- **What is split off in front of a gap closes the place where the splitter started.** -/
theorem leaves_splitAt (place : Place) : ∀ t : Text, (splitAt place.quoted place.inClass t).2 ≠ [] →
    place.Leaves (splitAt place.quoted place.inClass t).1
  | [], h => absurd rfl h
  | s :: t, h => by
    by_cases hs : s.is '\\' = true
    · obtain rfl := Symbol.is_iff.mp hs
      cases t with
      | nil => exact absurd rfl h
      | cons s t => exact (leaves_splitAt place t h).escape
    · rw [Bool.not_eq_true] at hs
      by_cases hstops : place.stops s = true
      · cases place with
        | outside =>
          rw [stops] at hstops
          have hsplit : splitAt false false (s :: t) = ([], s :: t) := by
            rw [splitAt.eq_def]
            simp [hs, hstops]
          rw [quoted, inClass, hsplit]
          exact Parted.nil
        | _ => cases hstops
      · rw [Bool.not_eq_true] at hstops
        rw [splitAt_cons hs hstops] at h ⊢
        exact (leaves_splitAt _ t h).cons hs hstops

end Place

end

/-- Splitting loses nothing. -/
theorem splitAt_append (quoted inClass : Bool) (t : Text) :
    (splitAt quoted inClass t).1 ++ (splitAt quoted inClass t).2 = t := by
  fun_induction splitAt quoted inClass t <;> simp_all

/-- **A rule is split behind its pattern if and only if the pattern is made of closed parts.** -/
theorem splitRule_eq_iff (space : Space) (p a : Text) :
    splitRule (p ++ space.symbol :: a) = (p, a.trim) ↔ Parted p := by
  constructor
  · intro h
    have hp : (splitAt false false (p ++ space.symbol :: a)).1 = p := congrArg Prod.fst h
    have hlost := splitAt_append false false (p ++ space.symbol :: a)
    rw [hp, List.append_cancel_left_eq] at hlost
    have hleaves := Place.outside.leaves_splitAt (p ++ space.symbol :: a) (by
      rw [Place.quoted, Place.inClass, hlost]
      exact List.cons_ne_nil _ _)
    rwa [Place.quoted, Place.inClass, hp] at hleaves
  · rintro ⟨parts, hparts, rfl⟩
    have hsplit := splitAt_textOf hparts ⟨space, []⟩ a
    have htrim : Text.trim (space.symbol :: a) = a.trim := by
      have hblank : Text.Blank [space.symbol] := Gap.blank_text ⟨space, []⟩
      rw [Text.trim, Text.trim, ← List.singleton_append, Text.trimStart_blank hblank]
    rw [Gap.text, Pad.text, List.map_nil, List.singleton_append] at hsplit
    rw [splitRule, hsplit]
    simp only [htrim]

/-- Whether a text is made of closed parts can be seen from how a rule with it is split. -/
instance (t : Text) : Decidable (Parted t) := decidable_of_iff _ (splitRule_eq_iff .blank t [])

/-! ## Classes as they are read when literals are replaced -/

section

variable {c rest t : Text}

/-- Behind its opening bracket a class is `c`, if `rest` follows in the pattern. It is closed: what
comes behind the pattern does not belong to it. -/
structure IsClass (c rest : Text) : Prop where
  cut : cutClass (.char '[' :: (c ++ rest)) = (.char '[' :: c, rest)
  closed : cutClass (.char '[' :: (c ++ (rest ++ [.char ' ']))) =
    (.char '[' :: c, rest ++ [.char ' '])

instance (c rest : Text) : Decidable (IsClass c rest) :=
  decidable_of_iff (cutClass (.char '[' :: (c ++ rest)) = (.char '[' :: c, rest) ∧
      cutClass (.char '[' :: (c ++ (rest ++ [.char ' ']))) =
        (.char '[' :: c, rest ++ [.char ' '])) <| by
    constructor
    · rintro ⟨hcut, hclosed⟩
      exact ⟨hcut, hclosed⟩
    · rintro ⟨hcut, hclosed⟩
      exact ⟨hcut, hclosed⟩

/-- No bracket stands first in the class, and none ends a name in it. -/
structure Ordinary (c : Text) : Prop where
  first : ¬[.char ']'] <+: c
  second : ¬[.char '^', .char ']'] <+: c
  names : ∀ x y, c = x ++ .char ':' :: .char ']' :: y → y = []

/-- A class that ends in front of something takes a symbol at least. -/
theorem cutBody_ne_nil {fuel : Nat} (h : cutBody fuel t = (c, rest)) (hrest : rest ≠ []) :
    c ≠ [] := by
  rintro rfl
  fun_cases cutBody fuel t <;> simp_all [cutBody]

theorem cutBody_nil (fuel : Nat) : cutBody fuel [] = ([], []) := by
  cases fuel <;> rfl

/-- The body of a class is made of items, if no bracket ends a name in it. -/
theorem exists_items {fuel : Nat} (h : cutBody fuel t = (c, rest)) (hrest : rest ≠ [])
    (hnames : ∀ x y, c = x ++ .char ':' :: .char ']' :: y → y = []) :
    ∃ body : List Item, body.all (Item.fits ']') = true ∧
      c = body.flatMap Item.text ++ [.char ']'] := by
  -- A name in the class is the only case in which the class does not go on with an item.
  fun_induction cutBody fuel t generalizing c with
  | case1 t => cases h; exact absurd rfl hrest
  | case2 n => cases h; exact absurd rfl hrest
  | case3 n rest => cases h; exact ⟨[], rfl, rfl⟩
  | case4 fuel s t c' rest' hcut ih =>
    cases h
    obtain ⟨body, hbody, rfl⟩ := ih hcut fun x y hxy =>
      hnames (.char '\\' :: s :: x) y (by rw [hxy]; rfl)
    exact ⟨.escape s :: body, hbody, rfl⟩
  | case5 fuel t name behind hcolon c' rest' hcut ih =>
    cases h
    exact absurd (hnames (.char '[' :: .char ':' :: name) c' (by simp)) (cutBody_ne_nil hcut hrest)
  | case6 fuel t hcolon c' rest' hcut ih =>
    cases h
    obtain ⟨body, hbody, rfl⟩ := ih hcut fun x y hxy => hnames (.char '[' :: x) y (by rw [hxy]; rfl)
    exact ⟨.symbol (.char '[') :: body, hbody, rfl⟩
  | case7 fuel s t hclose hescape hopen c' rest' hcut ih =>
    cases h
    obtain ⟨body, hbody, rfl⟩ := ih hcut fun x y hxy => hnames (s :: x) y (by rw [hxy]; rfl)
    refine ⟨.symbol s :: body, Bool.and_eq_true_iff.mpr ⟨?_, hbody⟩, rfl⟩
    rw [Item.fits, Bool.and_eq_true, Bool.not_eq_true', Bool.not_eq_true', ← Bool.not_eq_true,
      ← Bool.not_eq_true, Symbol.is_iff, Symbol.is_iff]
    refine ⟨?_, hclose⟩
    rintro rfl
    cases t with
    | nil =>
      rw [cutBody_nil] at hcut
      exact hrest (Prod.mk.inj hcut).2.symm
    | cons s t => exact hescape s t rfl rfl

/-- Items do not start with the bracket that closes them. -/
theorem eq_nil_of_first {body : List Item} (hbody : body.all (Item.fits ']') = true) {y : Text}
    (h : body.flatMap Item.text ++ [.char ']'] = .char ']' :: y) : y = [] := by
  cases body with
  | nil => exact (List.cons.inj h).2.symm
  | cons i body =>
    obtain ⟨hi, -⟩ := Bool.and_eq_true_iff.mp hbody
    cases i with
    | symbol s =>
      obtain rfl : s = .char ']' := (List.cons.inj h).1
      cases hi
    | escape s => exact absurd (List.cons.inj h).1 (by decide)

/-- Among items that a bracket closes no other bracket stands behind anything but a backslash. -/
theorem eq_nil_of_behind {body : List Item} (hbody : body.all (Item.fits ']') = true) {s : Symbol}
    (hs : s ≠ .char '\\') {x y : Text}
    (h : body.flatMap Item.text ++ [.char ']'] = x ++ s :: .char ']' :: y) : y = [] := by
  induction body generalizing x with
  | nil =>
    have hlength := congrArg List.length h
    simp only [List.flatMap_nil, List.nil_append, List.length_append, List.length_cons,
      List.length_nil] at hlength
    omega
  | cons i body ih =>
    obtain ⟨-, hrest⟩ := Bool.and_eq_true_iff.mp hbody
    rw [List.flatMap_cons, List.append_assoc] at h
    cases i with
    | symbol s =>
      cases x with
      | nil => exact eq_nil_of_first hrest (List.cons.inj h).2
      | cons s' x => exact ih hrest (List.cons.inj h).2
    | escape s' =>
      -- The symbol is not the backslash, but it may be what is escaped.
      obtain _ | ⟨b, _ | ⟨s', x⟩⟩ := x
      · exact absurd (List.cons.inj h).1.symm hs
      · exact eq_nil_of_first hrest (List.cons.inj (List.cons.inj h).2).2
      · exact ih hrest (List.cons.inj (List.cons.inj h).2).2

/-- A class consists of what may stand first in it, and of a body. -/
theorem IsClass.exists_body (h : IsClass c rest) {first t : Text}
    (hfirst : cutFirst (c ++ (rest ++ [.char ' '])) = (first, t)) :
    ∃ body, c = first ++ body ∧ cutBody t.length t = (body, rest ++ [.char ' ']) := by
  have hcut := h.closed
  rw [cutClass, List.drop_one, List.tail_cons, hfirst] at hcut
  obtain ⟨hc, hrest⟩ := Prod.mk.inj hcut
  exact ⟨(cutBody t.length t).1, (List.cons.inj hc).2.symm, Prod.ext rfl hrest⟩

/-- **The class is the same one for the splitter if and only if it is ordinary.** -/
theorem IsClass.ordinary_iff (h : IsClass c rest) :
    (∃ body : List Item, (Part.cls body).fits = true ∧ (Part.cls body).text = .char '[' :: c) ↔
      Ordinary c := by
  have hrest : rest ++ [.char ' '] ≠ [] :=
    List.append_ne_nil_of_right_ne_nil _ (List.cons_ne_nil _ _)
  constructor
  · rintro ⟨items, hitems, htext⟩
    obtain rfl : items.flatMap Item.text ++ [.char ']'] = c := (List.cons.inj htext).2
    refine ⟨?_, ?_, fun x y hxy => eq_nil_of_behind hitems (by decide) hxy⟩
    · rintro ⟨y, hy⟩
      obtain rfl := eq_nil_of_first hitems hy.symm
      rw [← hy] at h
      obtain ⟨body, hc, hcut⟩ := h.exists_body rfl
      exact cutBody_ne_nil hcut hrest (List.cons.inj hc).2.symm
    · rintro ⟨y, hy⟩
      obtain rfl := eq_nil_of_behind (x := []) hitems (by decide) hy.symm
      rw [← hy] at h
      obtain ⟨body, hc, hcut⟩ := h.exists_body rfl
      exact cutBody_ne_nil hcut hrest (List.cons.inj (List.cons.inj hc).2).2.symm
  · intro hordinary
    have hitems {first t body : Text} (hc : c = first ++ body)
        (hcut : cutBody t.length t = (body, rest ++ [.char ' '])) :
        ∃ items : List Item, items.all (Item.fits ']') = true ∧
          body = items.flatMap Item.text ++ [.char ']'] := by
      refine exists_items hcut hrest fun x y hxy => hordinary.names (first ++ x) y ?_
      rw [hc, hxy, List.append_assoc]
    cases hfirst : cutFirst (c ++ (rest ++ [.char ' '])) with
    | mk first t =>
      obtain ⟨body, hc, hcut⟩ := h.exists_body hfirst
      obtain ⟨items, hfits, hbody⟩ := hitems hc hcut
      unfold cutFirst at hfirst
      split at hfirst
      · obtain ⟨rfl, -⟩ := Prod.mk.inj hfirst
        exact absurd ⟨body, hc.symm⟩ hordinary.second
      · obtain ⟨rfl, -⟩ := Prod.mk.inj hfirst
        exact ⟨.symbol (.char '^') :: items, hfits, by rw [hc, hbody]; rfl⟩
      · obtain ⟨rfl, -⟩ := Prod.mk.inj hfirst
        exact absurd ⟨body, hc.symm⟩ hordinary.first
      · obtain ⟨rfl, -⟩ := Prod.mk.inj hfirst
        exact ⟨items, hfits, by rw [hc, hbody]; rfl⟩

/-! ## Patterns made of what the readers of literals and classes take -/

/-- The pattern is made of escapes, literals, classes that are `ok`, and symbols that open none of
them. -/
inductive Whole (ok : Text → Prop) : Text → Prop
  | nil : Whole ok []
  | escape (s : Symbol) {p : Text} (h : Whole ok p) : Whole ok (.char '\\' :: s :: p)
  | literal {l said p : Text} (hl : readLiteral (l ++ p) = some (said, p)) (h : Whole ok p) :
      Whole ok (.char '"' :: (l ++ p))
  | cls {c p : Text} (hc : IsClass c p) (hok : ok (.char '[' :: c)) (h : Whole ok p) :
      Whole ok (.char '[' :: (c ++ p))
  | symbol {s : Symbol} {p : Text}
      (hs : s ∉ ([.char ' ', .char '\t', .char '\\', .char '"', .char '['] : Text))
      (h : Whole ok p) : Whole ok (s :: p)

/-- A literal consists of items that a quote closes. -/
theorem exists_items_of_readLiteral {said : Text} (h : readLiteral t = some (said, rest)) :
    ∃ body : List Item, body.all (Item.fits '"') = true ∧
      t = body.flatMap Item.text ++ .char '"' :: rest := by
  induction t using literal_induction generalizing said with
  | nil => cases h
  | quote t =>
    cases h
    exact ⟨[], rfl, rfl⟩
  | escape s t ih =>
    obtain ⟨said, h, -⟩ := readLiteral_escape_eq_some.mp h
    obtain ⟨body, hbody, rfl⟩ := ih h
    exact ⟨.escape s :: body, hbody, rfl⟩
  | dangling => cases h
  | plain s t hs ih =>
    obtain ⟨said, h, -⟩ := (readLiteral_plain_eq_some hs).mp h
    obtain ⟨body, hbody, rfl⟩ := ih h
    rw [Symbol.needsBackslash, Bool.or_eq_false_iff] at hs
    refine ⟨.symbol s :: body, Bool.and_eq_true_iff.mpr ⟨?_, hbody⟩, rfl⟩
    simp only [Item.fits, hs, Bool.not_false, Bool.and_true]

/-- **A pattern whose classes are closed for the splitter is so itself.** -/
theorem Whole.parted {p : Text} (h : Whole Parted p) : Parted p := by
  induction h with
  | nil => exact .nil
  | escape s h ih => exact ih.part (p := .escape s) rfl
  | literal hl h ih =>
    obtain ⟨body, hbody, htext⟩ := exists_items_of_readLiteral hl
    rw [htext]
    exact Place.Leaves.quote ⟨body, _, hbody, ih, rfl⟩
  | cls hc hok h ih => exact hok.append ih
  | @symbol s p hs h ih =>
    refine ih.part (p := .symbol s) ?_
    simp only [List.mem_cons, not_or, ← Symbol.is_iff, List.not_mem_nil, Bool.not_eq_true] at hs
    simp [Part.fits, hs]

end

/-- **A rule is split behind its pattern if and only if the pattern is made of closed parts.** A
pattern is, if all its classes are, as they are read when literals are replaced. Such a class is a
single part if and only if no bracket stands first in it and none ends a name. -/
theorem rule_split_iff (space : Space) (p a : Text) :
    (splitRule (p ++ space.symbol :: a) = (p, a.trim) ↔ Parted p) ∧
      (Whole Parted p → splitRule (p ++ space.symbol :: a) = (p, a.trim)) ∧
      ∀ c rest, IsClass c rest → ((∃ body : List Item, (Part.cls body).fits = true ∧
        (Part.cls body).text = .char '[' :: c) ↔ Ordinary c) :=
  ⟨splitRule_eq_iff space p a, fun h => (splitRule_eq_iff space p a).mpr h.parted,
    fun _ _ h => h.ordinary_iff⟩

/-- What stands behind the opening bracket of a class with a quote and a blank. -/
def mixedClass : Text := "a\" b]"

/-- An escaped blank, and a class with a name. -/
def mixedEnd : Text := .char '\\' :: .char ' ' :: .char '[' :: (Text.ofString "[:alpha:]]" ++ [])

/-- A literal with a blank and a bracket, and what follows it. -/
def mixedRest : Text := .char '"' :: (Text.ofString "x ]\"" ++ mixedEnd)

theorem rule_split_iff_mixed :
    Whole Parted (.char '[' :: (mixedClass ++ mixedRest)) ∧
      splitRule (Text.ofString "[a\" b]\"x ]\"\\ [[:alpha:]]" ++ Space.tab.symbol ::
        Text.ofString " skip ") =
        (Text.ofString "[a\" b]\"x ]\"\\ [[:alpha:]]", Text.ofString "skip") ∧
      IsClass mixedClass mixedRest ∧ Ordinary mixedClass := by
  have htext : Text.ofString "[a\" b]\"x ]\"\\ [[:alpha:]]" =
      .char '[' :: (mixedClass ++ mixedRest) := by
    decide +kernel
  have htrim : Text.trim (Text.ofString " skip ") = Text.ofString "skip" := by decide +kernel
  obtain ⟨-, hsplit, hsame⟩ :=
    rule_split_iff .tab (.char '[' :: (mixedClass ++ mixedRest)) (Text.ofString " skip ")
  have hclass : IsClass mixedClass mixedRest := by decide +kernel
  have hname : Whole Parted mixedEnd :=
    .escape (.char ' ') (.cls (by decide +kernel) (by decide +kernel) .nil)
  have hread : readLiteral (Text.ofString "x ]\"" ++ mixedEnd) =
      some (Text.ofString "x ]", mixedEnd) := by
    decide +kernel
  have hwhole := Whole.cls hclass (by decide +kernel) (.literal hread hname)
  have hitems : ∃ body : List Item, (Part.cls body).fits = true ∧
      (Part.cls body).text = .char '[' :: mixedClass :=
    ⟨[.symbol (.char 'a'), .symbol (.char '"'), .symbol (.char ' '), .symbol (.char 'b')],
      by decide +kernel, by decide +kernel⟩
  refine ⟨hwhole, ?_, hclass, (hsame _ _ hclass).mp hitems⟩
  rw [htext, hsplit hwhole, htrim]

/-- A class with a bracket first goes on behind the blank in it, and a rule with this class is split
at the blank. -/
theorem rule_split_in_class :
    IsClass "] ]" [] ∧ Whole (fun _ => True) "[] ]" ∧
      splitRule "[] ] skip" = (Text.ofString "[]", Text.ofString "] skip") ∧
      ¬∀ p a : Text, Whole (fun _ => True) p →
        splitRule (p ++ Space.blank.symbol :: a) = (p, a.trim) := by
  have hclass : IsClass "] ]" [] := by decide +kernel
  have htext : Text.ofString "[] ]" = .char '[' :: (Text.ofString "] ]" ++ []) := by decide +kernel
  have hwhole : Whole (fun _ => True) "[] ]" := by
    rw [htext]
    exact .cls hclass trivial .nil
  refine ⟨hclass, hwhole, by decide +kernel, fun h => ?_⟩
  have hsplit := h "[] ]" "skip" hwhole
  exact absurd hsplit (by decide +kernel)

end Munch.RuleFile
