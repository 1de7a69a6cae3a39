import Munch.Lexer.Basic
import Munch.Proofs.Registration
import Munch.Proofs.Replacing
import Munch.Proofs.Words

/-!
# References in expanded patterns

References are replaced by one definition after the other. A fragment that is put in is searched for
the names of later definitions only: a reference in it to its own definition, or to an earlier one,
stays, and as the name is defined there is no warning of it.

* `Definitions.substituted es p`: the pattern `p` with the references to the definitions `es`
  replaced.
* `Definitions.Brings es p name i e`: the definition `e`, number `i`, puts a reference to `name` in,
  and no definition of that name comes behind it.
* `Definitions.LooksAhead d`: no fragment refers to its own definition or to an earlier one.

Results:
* `mem_references`: what looks like a reference is an identifier in braces, wherever it stands.
* `Definitions.reference_substituted`: a reference that is left was there and is not to any of the
  definitions, or was brought in by one of them.
* `Definitions.brought_behind`: a reference that is left to one of the definitions was brought in by
  it, or behind it.
* `Lexer.warnings_addRule`: the warnings of a rule are those of references to undefined names.
* **`silent_rule_references`**: which references can be left in the pattern of a rule without a
  warning.
-/

namespace Munch

open Lexer

variable {α η : Type}

/-! ## What looks like a reference -/

section References

variable {name rest t : Text}

theorem reference_eq (name : Text) :
    Definitions.reference name = .char '\x7b' :: (name ++ [.char '\x7d']) := rfl

theorem reference_ne_nil (name : Text) : Definitions.reference name ≠ [] := List.cons_ne_nil _ _

/-- A symbol that is in no identifier, and is no brace, is in no reference to one. -/
theorem IsIdentifier.not_mem_reference (h : IsIdentifier name) {s : Symbol} (hs : s.inName = false)
    (hopen : s ≠ .char '\x7b') (hclose : s ≠ .char '\x7d') : s ∉ Definitions.reference name := by
  simp [Definitions.reference, hopen, hclose, h.not_mem hs]

/-- An identifier ends before its closing brace. -/
theorem IsIdentifier.span (h : IsIdentifier name) (rest : Text) :
    (name ++ .char '\x7d' :: rest).span Symbol.inName = (name, .char '\x7d' :: rest) := by
  rw [List.span_eq_takeWhile_dropWhile, List.takeWhile_append_of_pos h.inName,
    List.dropWhile_append_of_pos h.inName]
  simp [Symbol.inName]

theorem identifier_unique {other back : Text} (h : IsIdentifier name) (h' : IsIdentifier other)
    (heq : name ++ .char '\x7d' :: rest = other ++ .char '\x7d' :: back) :
    name = other ∧ rest = back := by
  have hspan := h.span rest
  rw [heq, h'.span] at hspan
  obtain ⟨hname, hrest⟩ := Prod.mk.inj hspan
  exact ⟨hname.symm, (List.cons.inj hrest).2.symm⟩

theorem bracedName?_eq_some : bracedName? t = some (name, rest) ↔
    IsIdentifier name ∧ t = name ++ .char '\x7d' :: rest := by
  constructor
  · intro h
    unfold bracedName? at h
    split at h
    next s t =>
      split at h
      next hs =>
        rw [List.span_eq_takeWhile_dropWhile] at h
        split at h
        next front back hspan =>
          cases h
          obtain ⟨hfront, hback⟩ := Prod.mk.inj hspan
          refine ⟨?_, ?_⟩
          · rw [← hfront, List.takeWhile_cons_of_pos (inName_of_startsName hs)]
            exact ⟨hs, List.all_eq_true.mp List.all_takeWhile⟩
          · rw [← hfront, ← hback, List.takeWhile_append_dropWhile]
        · cases h
      · cases h
    · cases h
  · rintro ⟨h, rfl⟩
    cases name with
    | nil => cases h
    | cons s name =>
      have hspan := h.span rest
      rw [List.cons_append] at hspan ⊢
      unfold bracedName?
      simp only
      rw [if_pos h.1, hspan]
      rfl

/-- A text that begins with a symbol is not found where that symbol is not. -/
theorem infix_of_head_not_mem {c : Symbol} {w front back : Text} (hc : c ∉ front)
    (h : c :: w <:+: front ++ back) : c :: w <:+: back := by
  induction front with
  | nil => exact h
  | cons s front ih =>
    rw [List.mem_cons, not_or] at hc
    obtain h | h := List.infix_cons_iff.mp h
    · exact absurd (List.cons_prefix_cons.mp h).1 hc.1
    · exact ih hc.2 h

theorem brace_not_inName : Symbol.inName (.char '\x7b') = false := by decide

theorem reference_prefix_iff : Definitions.reference name <+: .char '\x7b' :: t ↔
    ∃ back, t = name ++ .char '\x7d' :: back := by
  rw [reference_eq, List.cons_prefix_cons, eq_self_iff_true, true_and]
  refine exists_congr fun back => ?_
  rw [List.append_assoc, List.singleton_append, eq_comm]

/-- The rest behind an identifier in braces has all other references. -/
theorem reference_infix_named {other : Text} (h : IsIdentifier name) (h' : IsIdentifier other) :
    Definitions.reference other <:+: .char '\x7b' :: (name ++ .char '\x7d' :: rest) ↔
      other = name ∨ Definitions.reference other <:+: rest := by
  rw [List.infix_cons_iff, reference_prefix_iff]
  constructor
  · rintro (⟨back, hback⟩ | hin)
    · exact .inl (identifier_unique h' h hback.symm).1
    · refine .inr ?_
      rw [reference_eq] at hin ⊢
      have hfront : Symbol.char '\x7b' ∉ name ++ [.char '\x7d'] := by
        simp [h.not_mem brace_not_inName]
      have hsplit : name ++ .char '\x7d' :: rest = name ++ [.char '\x7d'] ++ rest :=
        List.append_cons _ _ _
      rw [hsplit] at hin
      exact infix_of_head_not_mem hfront hin
  · rintro (rfl | hin)
    · exact .inl ⟨rest, rfl⟩
    · refine .inr (hin.trans ?_)
      rw [List.append_cons]
      exact (List.suffix_append _ _).isInfix

theorem mem_referencesFrom {fuel : Nat} (hfuel : t.length ≤ fuel) :
    name ∈ referencesFrom fuel t ↔ IsIdentifier name ∧ Definitions.reference name <:+: t := by
  induction fuel generalizing t with
  | zero =>
    obtain rfl := List.eq_nil_of_length_eq_zero (Nat.le_zero.mp hfuel)
    simp [referencesFrom, reference_ne_nil]
  | succ fuel ih =>
    cases t with
    | nil => simp [referencesFrom, reference_ne_nil]
    | cons s rest =>
      have hrest := Nat.le_of_succ_le_succ hfuel
      have hlater (hnot : ¬(IsIdentifier name ∧ Definitions.reference name <+: s :: rest)) :
          (IsIdentifier name ∧ Definitions.reference name <:+: s :: rest) ↔
            name ∈ referencesFrom fuel rest := by
        rw [ih hrest, List.infix_cons_iff]
        exact and_congr_right fun hname => or_iff_right fun hprefix => hnot ⟨hname, hprefix⟩
      rw [referencesFrom]
      split
      next hs =>
        obtain rfl := Symbol.is_iff.mp hs
        cases hbraced : bracedName? rest with
        | none =>
          refine (hlater ?_).symm
          rintro ⟨hname, hprefix⟩
          obtain ⟨back, hback⟩ := reference_prefix_iff.mp hprefix
          exact Option.some_ne_none _ ((bracedName?_eq_some.mpr ⟨hname, hback⟩).symm.trans hbraced)
        | some found =>
          obtain ⟨other, back⟩ := found
          obtain ⟨hother, rfl⟩ := bracedName?_eq_some.mp hbraced
          have hback : back.length ≤ fuel := by
            simp only [List.length_append, List.length_cons] at hrest
            omega
          show name ∈ other :: referencesFrom fuel back ↔ _
          rw [List.mem_cons, ih hback]
          constructor
          · rintro (rfl | ⟨hname, hin⟩)
            · exact ⟨hother, (reference_infix_named hother hother).mpr (.inl rfl)⟩
            · exact ⟨hname, (reference_infix_named hother hname).mpr (.inr hin)⟩
          · rintro ⟨hname, hin⟩
            exact ((reference_infix_named hother hname).mp hin).imp_right fun hin => ⟨hname, hin⟩
      next hs =>
        refine (hlater ?_).symm
        rintro ⟨-, hprefix⟩
        rw [reference_eq, List.cons_prefix_cons] at hprefix
        rw [← hprefix.1] at hs
        exact hs rfl

/-- **What looks like a reference is an identifier in braces**, wherever it stands. -/
theorem mem_references :
    name ∈ references t ↔ IsIdentifier name ∧ Definitions.reference name <:+: t :=
  mem_referencesFrom (Nat.le_refl _)

end References

/-! ## One definition after the other -/

namespace Replaced

variable {name other fragment t u : Text}

/-- A reference that is left was there, and is not the one that is replaced, or it came with the
fragment. -/
theorem reference_grouped
    (h : Replaced (Definitions.reference other) (Definitions.grouped fragment) t u)
    (hname : IsIdentifier name) (hin : Definitions.reference name <:+: u) :
    (name ≠ other ∧ Definitions.reference name <:+: t) ∨
      (Definitions.reference other <:+: t ∧ Definitions.reference name <:+: fragment) := by
  have hopen := hname.not_mem_reference (s := .char '(') (by decide) (by decide) (by decide)
  have hclose := hname.not_mem_reference (s := .char ')') (by decide) (by decide) (by decide)
  exact (h.infix_grouped (reference_eq other) (reference_ne_nil name) hopen hclose hin).imp_left
    (And.imp_left fun hne heq => hne (congrArg Definitions.reference heq))

/-- A reference stays if it is to another identifier. -/
theorem reference_kept
    (h : Replaced (Definitions.reference other) (Definitions.grouped fragment) t u)
    (hname : IsIdentifier name) (hother : IsIdentifier other) (hne : name ≠ other)
    (hin : Definitions.reference name <:+: t) : Definitions.reference name <:+: u := by
  induction h with
  | nil => exact absurd (List.infix_nil.mp hin) (reference_ne_nil name)
  | @hit t u h ih =>
    rw [reference_eq other, List.cons_append, List.append_assoc, List.singleton_append] at hin
    have hin := ((reference_infix_named hother hname).mp hin).resolve_left hne
    exact (ih hin).trans (List.suffix_append _ u).isInfix
  | @skip s t u _ h ih =>
    obtain hprefix | hin := List.infix_cons_iff.mp hin
    · rw [reference_eq, List.cons_prefix_cons] at hprefix
      obtain ⟨rfl, hrest⟩ := hprefix
      have hbrace : Symbol.char '\x7b' ∉ name ++ [.char '\x7d'] := by
        simp [hname.not_mem brace_not_inName]
      refine List.IsPrefix.isInfix ?_
      rw [reference_eq]
      refine List.cons_prefix_cons.mpr ⟨rfl, ?_⟩
      obtain rfl | haltered := h.eq_or_altered (reference_eq other) rfl
      · exact hrest
      · exact haltered.isPrefix hbrace hrest
    · exact (ih hin).trans (List.suffix_cons s u).isInfix

end Replaced

namespace Definitions

/-- The pattern with the references to definitions replaced, one definition after the other. -/
def substituted (entries : List (Text × Text)) (pattern : Text) : Text :=
  entries.foldl (fun p e => Text.replaceAll (reference e.1) (grouped e.2) p) pattern

variable {entries : List (Text × Text)} {pattern name : Text}

theorem substituted_of_absent (h : ∀ e ∈ entries, ¬reference e.1 <:+: pattern) :
    substituted entries pattern = pattern := by
  induction entries with
  | nil => rfl
  | cons e entries ih =>
    obtain ⟨hfirst, hothers⟩ := List.forall_mem_cons.mp h
    show substituted entries (Text.replaceAll (reference e.1) (grouped e.2) pattern) = pattern
    rw [Text.replaceAll_of_absent (reference_ne_nil _) hfirst]
    exact ih hothers

/-- A pattern without a brace is left alone, as nothing in it would be replaced. -/
theorem expand_eq (d : Definitions) (pattern : Text) :
    d.expand pattern = substituted d.entries pattern := by
  unfold expand
  split
  · rfl
  next hnone =>
    refine (substituted_of_absent fun e _ hin => hnone ?_).symm
    exact List.any_eq_true.mpr ⟨.char '\x7b', hin.subset List.mem_cons_self, Symbol.is_iff.mpr rfl⟩

/-- A definition puts a reference in: it is one to a name that no definition behind it has. -/
structure Brings (entries : List (Text × Text)) (pattern name : Text) (i : Nat) (e : Text × Text) :
    Prop where
  entry : entries[i]? = some e
  /-- there is something to replace when it is its turn -/
  used : reference e.1 <:+: substituted (entries.take i) pattern
  refers : reference name <:+: e.2
  last : name ∉ (entries.drop (i + 1)).map (·.1)

/-- **A reference that is left** was in the pattern and is to none of the definitions, or one of
them put it in. The induction is on the definitions, the first of which changes the pattern for the
others. -/
theorem reference_substituted (hname : IsIdentifier name)
    (hin : reference name <:+: substituted entries pattern) :
    (name ∉ entries.map (·.1) ∧ reference name <:+: pattern) ∨
      ∃ i e, Brings entries pattern name i e := by
  induction entries generalizing pattern with
  | nil => exact .inl ⟨List.not_mem_nil, hin⟩
  | cons e entries ih =>
    obtain ⟨hothers, hafter⟩ | ⟨i, e', hbrings⟩ := ih hin
    · have hreplaced := Text.replaced_replaceAll (reference_ne_nil e.1) (grouped e.2) pattern
      obtain ⟨hne, hbefore⟩ | ⟨hused, hrefers⟩ := hreplaced.reference_grouped hname hafter
      · exact .inl ⟨List.not_mem_cons_of_ne_of_not_mem hne hothers, hbefore⟩
      · exact .inr ⟨0, e, rfl, hused, hrefers, hothers⟩
    · exact .inr ⟨i + 1, e', hbrings.entry, hbrings.used, hbrings.refers, hbrings.last⟩

/-- Among identifiers no reference is lost by accident: all those that are put in are left. -/
theorem reference_substituted_iff (hnames : ∀ e ∈ entries, IsIdentifier e.1)
    (hname : IsIdentifier name) :
    reference name <:+: substituted entries pattern ↔
      (name ∉ entries.map (·.1) ∧ reference name <:+: pattern) ∨
        ∃ i e, Brings entries pattern name i e := by
  refine ⟨reference_substituted hname, fun h => ?_⟩
  induction entries generalizing pattern with
  | nil =>
    obtain ⟨-, hin⟩ | ⟨i, e, hbrings⟩ := h
    · exact hin
    · cases hbrings.entry
  | cons e entries ih =>
    obtain ⟨hfirst, hothers⟩ := List.forall_mem_cons.mp hnames
    have hreplaced := Text.replaced_replaceAll (reference_ne_nil e.1) (grouped e.2) pattern
    refine ih hothers ?_
    obtain ⟨hnot, hin⟩ | ⟨i, e', hbrings⟩ := h
    · obtain ⟨hne, hnot⟩ := List.ne_and_not_mem_of_not_mem_cons hnot
      exact .inl ⟨hnot, hreplaced.reference_kept hname hfirst hne hin⟩
    · obtain _ | i := i
      · cases hbrings.entry
        refine .inl ⟨hbrings.last, ?_⟩
        have hfragment : e.2 <:+: grouped e.2 :=
          List.infix_append [Symbol.char '('] e.2 [Symbol.char ')']
        exact (hbrings.refers.trans hfragment).trans
          (hreplaced.infix_new (reference_ne_nil e.1) hbrings.used)
      · exact .inr ⟨i, e', hbrings.entry, hbrings.used, hbrings.refers, hbrings.last⟩

/-- A reference that is left although its name is defined was brought in at the place of the name's
own definition, or behind it: later definitions would have replaced it. -/
theorem brought_behind (hname : IsIdentifier name) (hdefined : name ∈ entries.map (·.1))
    (hin : reference name <:+: substituted entries pattern) :
    ∃ i j e fragment, i ≤ j ∧ entries[i]? = some (name, fragment) ∧
      Brings entries pattern name j e := by
  obtain ⟨hnot, -⟩ | ⟨j, e, hbrings⟩ := reference_substituted hname hin
  · exact absurd hdefined hnot
  obtain ⟨⟨_, fragment⟩, hmem, rfl⟩ := List.mem_map.mp hdefined
  obtain ⟨i, hi⟩ := List.mem_iff_getElem?.mp hmem
  refine ⟨i, j, e, fragment, Nat.le_of_not_lt fun hlt => hbrings.last ?_, hi, hbrings⟩
  refine List.mem_map.mpr ⟨_, List.mem_iff_getElem?.mpr ⟨i - (j + 1), ?_⟩, rfl⟩
  rw [List.getElem?_drop, show j + 1 + (i - (j + 1)) = i by omega, hi]

/-- No fragment refers to its own definition, or to an earlier one. -/
def LooksAhead (d : Definitions) : Prop :=
  (∀ e ∈ d.entries, ¬reference e.1 <:+: e.2) ∧
    d.entries.Pairwise fun e later => ¬reference e.1 <:+: later.2

instance (d : Definitions) : Decidable d.LooksAhead := inferInstanceAs (Decidable (_ ∧ _))

theorem LooksAhead.not_refers {d : Definitions} (h : d.LooksAhead) {i j : Nat}
    {e later : Text × Text} (hij : i ≤ j) (he : d.entries[i]? = some e)
    (hlater : d.entries[j]? = some later) : ¬reference e.1 <:+: later.2 := by
  obtain ⟨hi, rfl⟩ := List.getElem?_eq_some_iff.mp he
  obtain ⟨hj, rfl⟩ := List.getElem?_eq_some_iff.mp hlater
  obtain hlt | rfl := Nat.lt_or_eq_of_le hij
  · exact List.pairwise_iff_getElem.mp h.2 i j hi hj hlt
  · exact h.1 _ (List.getElem_mem hi)

theorem find?_isSome_iff (d : Definitions) (name : Text) :
    (d.find? name).isSome = true ↔ name ∈ d.entries.map (·.1) := by
  unfold find?
  rw [List.lookup_isSome_iff, List.mem_map]
  exact exists_congr fun e => and_congr_right fun _ => beq_iff_eq.trans eq_comm

end Definitions

/-! ## Warnings -/

namespace Lexer

/-- The pattern of a rule with all references replaced. -/
def expanded (lx : Lexer α η) (spec : Text) : Text := lx.definitions.expand (Rule.splitSpec spec).2

/-- The names that a text refers to and that are not defined. -/
def undefinedIn (lx : Lexer α η) (t : Text) : List Text :=
  (references t).filter fun name => (lx.definitions.find? name).isNone

theorem warnings_warnReferences (lx : Lexer α η) (spec t : Text) :
    (lx.warnReferences spec t).warnings = lx.warnings ++
      (lx.undefinedIn t).map (.undefinedName spec) := by
  unfold warnReferences undefinedIn
  generalize references t = names
  induction names generalizing lx with
  | nil => rw [List.filter_nil, List.map_nil, List.append_nil, List.foldl_nil]
  | cons name names ih =>
    rw [List.foldl_cons, List.filter_cons]
    cases hname : lx.definitions.find? name with
    | some fragment => exact ih lx
    | none =>
      rw [ih, if_pos (show (none : Option Text).isNone = true from rfl), List.map_cons,
        List.append_cons]
      rfl

theorem warnings_foldl_bind (states : List Text) (lx : Lexer α η) (r : Rule α) :
    (states.foldl (fun lx s => lx.bind r s) lx).warnings = lx.warnings := by
  induction states generalizing lx with
  | nil => rfl
  | cons s states ih =>
    rw [List.foldl_cons, ih]
    unfold bind
    simp only
    split <;> rfl

/-- **The warnings of a rule** that is registered are those of references to names that are not
defined. -/
theorem warnings_addRule {lx : Lexer α η} {spec : Text} {action : Option α}
    (hok : (lx.addRule spec action).1 = .ok ()) : (lx.addRule spec action).2.warnings =
      lx.warnings ++ (lx.undefinedIn (lx.expanded spec)).map (.undefinedName spec) := by
  unfold addRule at hok ⊢
  simp only at hok ⊢
  cases htargets : lx.targets (Rule.splitSpec spec).1 with
  | error e =>
    rw [htargets] at hok
    cases hok
  | ok states =>
    rw [htargets] at hok
    simp only at hok ⊢
    split
    next hcompile =>
      rw [hcompile] at hok
      cases hok
    · exact (warnings_foldl_bind _ _ _).trans (warnings_warnReferences lx spec _)

/-- There is no warning iff all references that are left are to names that are defined. -/
theorem silent_iff {lx : Lexer α η} {spec : Text} {action : Option α}
    (hok : (lx.addRule spec action).1 = .ok ()) :
    (lx.addRule spec action).2.warnings = lx.warnings ↔ ∀ name, IsIdentifier name →
      Definitions.reference name <:+: lx.expanded spec →
        (lx.definitions.find? name).isSome = true := by
  rw [warnings_addRule hok, List.append_right_eq_self, List.map_eq_nil_iff, undefinedIn,
    List.filter_eq_nil_iff]
  refine forall_congr' fun name => ?_
  rw [mem_references, and_imp, ← Option.not_isSome, Bool.not_eq_true', Bool.not_eq_false]

end Lexer

/-- **What references can be left without a warning.** A rule that is registered adds no warning iff
the names of all references left in its pattern are defined. Then each of them was put in by the
fragment of a definition that stands at the place of the definition it refers to, or behind it; so
if no fragment refers to its own definition or to an earlier one, then none is left. Where names are
identifiers all references that are put in like this are left. -/
theorem silent_rule_references (lx : Lexer α η) (spec : Text) (action : Option α)
    (hok : (lx.addRule spec action).1 = .ok ()) :
    ((lx.addRule spec action).2.warnings = lx.warnings ↔ ∀ name, IsIdentifier name →
        Definitions.reference name <:+: lx.expanded spec →
          (lx.definitions.find? name).isSome = true) ∧
      ((lx.addRule spec action).2.warnings = lx.warnings →
        (∀ name, IsIdentifier name → Definitions.reference name <:+: lx.expanded spec →
          ∃ i j e fragment, i ≤ j ∧ lx.definitions.entries[i]? = some (name, fragment) ∧
            Definitions.Brings lx.definitions.entries (Rule.splitSpec spec).2 name j e) ∧
        (lx.definitions.LooksAhead →
          ∀ name, IsIdentifier name → ¬Definitions.reference name <:+: lx.expanded spec)) ∧
      ((∀ e ∈ lx.definitions.entries, IsIdentifier e.1) → ∀ name, IsIdentifier name → ∀ j e,
        Definitions.Brings lx.definitions.entries (Rule.splitSpec spec).2 name j e →
          Definitions.reference name <:+: lx.expanded spec) := by
  have hexpanded : lx.expanded spec =
      Definitions.substituted lx.definitions.entries (Rule.splitSpec spec).2 :=
        Definitions.expand_eq _ _
  have hbrought (h : (lx.addRule spec action).2.warnings = lx.warnings) (name : Text)
      (hname : IsIdentifier name) (hin : Definitions.reference name <:+: lx.expanded spec) :
      ∃ i j e fragment, i ≤ j ∧ lx.definitions.entries[i]? = some (name, fragment) ∧
        Definitions.Brings lx.definitions.entries (Rule.splitSpec spec).2 name j e := by
    have hdefined := (Definitions.find?_isSome_iff _ _).mp ((silent_iff hok).mp h name hname hin)
    rw [hexpanded] at hin
    exact Definitions.brought_behind hname hdefined hin
  refine ⟨silent_iff hok, fun h => ⟨hbrought h, fun hahead name hname hin => ?_⟩,
    fun hnames name hname j e hbrings => ?_⟩
  · obtain ⟨i, j, e, fragment, hij, hi, hbrings⟩ := hbrought h name hname hin
    exact hahead.not_refers hij hi hbrings.entry hbrings.refers
  · rw [hexpanded]
    exact (Definitions.reference_substituted_iff hnames hname).mpr (.inr ⟨j, e, hbrings⟩)

/-- A lexer with a definition that refers to a later one. -/
def lookingAhead : Lexer Nat Unit :=
  .configured [.define "NUMBER" "\x7bDIGIT\x7d+", .define "DIGIT" "[0-9]"]

set_option maxRecDepth 10000 in
theorem silent_rule_references_ahead :
    (lookingAhead.addRule "\x7bNUMBER\x7d" (some 1)).1 = .ok () ∧
      (lookingAhead.addRule "\x7bNUMBER\x7d" (some 1)).2.warnings = lookingAhead.warnings ∧
      lookingAhead.expanded "\x7bNUMBER\x7d" = "(([0-9])+)" ∧
      ∀ name, IsIdentifier name →
        ¬Definitions.reference name <:+: lookingAhead.expanded "\x7bNUMBER\x7d" := by
  have hok : (lookingAhead.addRule "\x7bNUMBER\x7d" (some 1)).1 = .ok () := by decide +kernel
  have hsilent : (lookingAhead.addRule "\x7bNUMBER\x7d" (some 1)).2.warnings =
      lookingAhead.warnings := by
    decide +kernel
  obtain ⟨-, hleft, -⟩ := silent_rule_references lookingAhead "\x7bNUMBER\x7d" (some 1) hok
  exact ⟨hok, hsilent, by decide +kernel, (hleft hsilent).2 (by decide +kernel)⟩

/-- A lexer with a definition that refers to an earlier one. -/
def lookingBack : Lexer Nat Unit := .configured [.define "A" "x", .define "B" "\x7bA\x7dy"]

set_option maxRecDepth 10000 in
/-- A rule is registered without a warning, and there is a reference left in it. -/
theorem reference_left_silently :
    (lookingBack.addRule "\x7bB\x7d" (some 1)).1 = .ok () ∧
      (lookingBack.addRule "\x7bB\x7d" (some 1)).2.warnings = lookingBack.warnings ∧
      IsIdentifier "A" ∧ Definitions.reference "A" <:+: lookingBack.expanded "\x7bB\x7d" := by
  decide +kernel

end Munch
