import Munch.Proofs.Attaching
import Munch.Proofs.Registration

/-!
# States and tokens that were declared

States and token names may be declared at any time, again and again, by actions in the middle of a
scan, too. What a lexer has of them is read off the calls alone.

* `Registry.stateNames`, `Registry.tokenNames`: the names that the calls of a history declare, each
  where it came up first.
* `Lexer.Orderly settings lx`: the states, the rules and the tokens of `lx` fit together, and are
  those that the calls `settings` declared.
* `Lexer.Grows lx lx'`: `lx'` has what `lx` has, with the same types, and may have more behind it.

Results:
* `TokenTable.find?_some`, `TokenTable.find?_getElem`, `TokenTable.nameOf_getElem`: a tag is a name
  with its number, and the number leads back to the name.
* `Registry.all_configured`, `Registry.names_configured`: what is declared are the names of the
  calls.
* `History.active_declared`: the active state is declared, whatever has happened.
* **`registry_orderly`**: a lexer with a history is orderly, and grows with all that may happen to
  it.
-/

namespace Munch

open Lexer

variable {α η υ ω β : Type}

/-! ## Token tables -/

namespace TokenTable

variable {t t' : TokenTable} {name : Text} {tag : TokenTag} {i : Nat}

theorem find?_eq_none : t.find? name = none ↔ name ∉ t.names := by
  unfold find?
  rw [Option.map_eq_none_iff, List.findIdx?_eq_none_iff]
  constructor
  · intro h hmem
    simpa using h name hmem
  · rintro h other hother
    rw [beq_eq_false_iff_ne]
    rintro rfl
    exact h hother

/-- A tag is a name with its number, counted from 1. -/
theorem find?_some (h : t.find? name = some tag) :
    ∃ i, t.names[i]? = some name ∧ tag = ⟨name, i + 1⟩ := by
  obtain ⟨i, hi, rfl⟩ := Option.map_eq_some_iff.mp h
  obtain ⟨hlt, hname, -⟩ := List.findIdx?_eq_some_iff_getElem.mp hi
  refine ⟨i, ?_, rfl⟩
  rw [List.getElem?_eq_getElem hlt, beq_iff_eq.mp hname]

/-- Where each name stands once, it has the tag with its number. -/
theorem find?_getElem (hnodup : t.names.Nodup) (h : t.names[i]? = some name) :
    t.find? name = some ⟨name, i + 1⟩ := by
  obtain ⟨hlt, rfl⟩ := List.getElem?_eq_some_iff.mp h
  have hfirst : t.names.findIdx? (· == t.names[i]) = some i := by
    refine List.findIdx?_eq_some_iff_getElem.mpr ⟨hlt, beq_self_eq_true _, fun j hj heq => ?_⟩
    have hsame := (hnodup.getElem_inj_iff).mp (beq_iff_eq.mp heq)
    omega
  unfold find?
  rw [hfirst]
  rfl

theorem nameOf_getElem (h : t.names[i]? = some name) : t.nameOf (i + 1 : Nat) = name := by
  unfold nameOf
  have hnumber : (((i + 1 : Nat) : Int) - 1).toNat = i := by omega
  rw [if_neg (by omega), hnumber, h]

/-- Declaring a name adds it at the end, unless it is there. -/
theorem declare_names (t : TokenTable) (name : Text) :
    (t.declare name).2.names = States.add name t.names := by
  unfold declare States.add
  cases hfind : t.find? name with
  | none =>
    rw [if_neg]
    simpa using find?_eq_none.mp hfind
  | some tag =>
    have hin : name ∈ t.names := by
      by_contra hnot
      cases (find?_eq_none.mpr hnot).symm.trans hfind
    rw [if_pos (List.contains_iff_mem.mpr hin)]

/-- Declaring a name again gives the tag it has. -/
theorem declare_of_find? (h : t.find? name = some tag) : (t.declare name).1 = tag := by
  unfold declare
  rw [h]

/-- Names that come later change no tag. -/
theorem find?_of_prefix (hnames : t.names <+: t'.names) (h : t.find? name = some tag) :
    t'.find? name = some tag := by
  obtain ⟨more, hmore⟩ := hnames
  obtain ⟨i, hi, rfl⟩ := Option.map_eq_some_iff.mp h
  unfold find?
  rw [← hmore, List.findIdx?_append, hi]
  rfl

end TokenTable

/-! ## The names of a history -/

/-- The state that a call declares. -/
def Setting.state? : Setting α η → Option Text
  | .declare name _ => some name
  | _ => none

/-- The token name that a call declares. -/
def Setting.token? : Setting α η → Option Text
  | .token name => some name
  | _ => none

namespace Registry

/-- The states that calls declare, in the order in which they came up; `initial` is there from the
start. -/
def stateNames (past : List (Setting α η)) : List Text :=
  (States.initial :: past.filterMap (·.state?)).eraseDups

/-- The token names that calls declare, in the order in which they came up. -/
def tokenNames (past : List (Setting α η)) : List Text := (past.filterMap (·.token?)).eraseDups

theorem eraseDups_add (names : List Text) (name : Text) :
    (names ++ [name]).eraseDups = States.add name names.eraseDups := by
  rw [eraseDups_concat, States.add]
  simp only [List.contains_iff_mem]

theorem eraseDups_prefix (names more : List Text) :
    names.eraseDups <+: (names ++ more).eraseDups := by
  rw [List.eraseDups_append]
  exact List.prefix_append _ _

section

variable (past more : List (Setting α η)) (c : Setting α η)

theorem stateNames_concat :
    stateNames (past ++ [c]) = c.state?.elim (stateNames past)
      (States.add · (stateNames past)) := by
  unfold stateNames
  rw [List.filterMap_append]
  cases hc : c.state? with
  | none => simp [hc]
  | some name =>
    rw [List.filterMap_cons_some hc, List.filterMap_nil, ← List.cons_append, eraseDups_add]
    rfl

theorem tokenNames_concat :
    tokenNames (past ++ [c]) = c.token?.elim (tokenNames past)
      (States.add · (tokenNames past)) := by
  unfold tokenNames
  rw [List.filterMap_append]
  cases hc : c.token? with
  | none => simp [hc]
  | some name =>
    rw [List.filterMap_cons_some hc, List.filterMap_nil, eraseDups_add]
    rfl

theorem stateNames_prefix : stateNames past <+: stateNames (past ++ more) := by
  unfold stateNames
  rw [List.filterMap_append, ← List.cons_append]
  exact eraseDups_prefix _ _

theorem tokenNames_prefix : tokenNames past <+: tokenNames (past ++ more) := by
  unfold tokenNames
  rw [List.filterMap_append]
  exact eraseDups_prefix _ _

/-- A state that has a class keeps one. -/
theorem classOf_append_isSome {state : Text} (h : (classOf past state).isSome) :
    (classOf (past ++ more) state).isSome := by
  induction more using List.reverseRecOn with
  | nil => rwa [List.append_nil]
  | append_singleton more c ih =>
    rw [← List.append_assoc, classOf_concat, Option.isSome_or, ih, Bool.or_true]

theorem classOf_of_take {i : Nat} {state : Text} (h : (classOf (past.take i) state).isSome) :
    (classOf past state).isSome := by
  have hlater := classOf_append_isSome (past.take i) (past.drop i) h
  rwa [List.take_append_drop] at hlater

end

/-- A rule that is registered for a state finds the state declared. -/
theorem declared_of_ruleFor {past : List (Setting α η)} {state : Text} {c : Setting α η}
    {r : Rule α} (h : ruleFor state past c = some r) : (classOf past state).isSome := by
  cases c with
  | rule spec action =>
    rw [ruleFor] at h
    split at h
    next hreaches =>
      cases htarget : (Rule.splitSpec spec).1 with
      | unnamed =>
        rw [htarget, reaches, decide_eq_true_iff] at hreaches
        rw [hreaches]
        rfl
      | every =>
        rw [htarget, reaches] at hreaches
        exact hreaches
      | named names =>
        rw [htarget, reaches] at hreaches
        unfold ruleOf at h
        rw [htarget] at h
        split at h
        next hadmits => exact List.all_eq_true.mp hadmits state (List.contains_iff_mem.mp hreaches)
        · cases h
    · cases h
  | _ => cases h

/-- Rules were added only to states that have a class. -/
theorem declared_of_rulesAdded {settings : List (Setting α η)} {state : Text}
    (h : rulesAdded state settings ≠ []) : (classOf settings state).isSome := by
  obtain ⟨r, hr⟩ := List.exists_mem_of_ne_nil _ h
  obtain ⟨i, c, -, hadded⟩ := (mem_gather settings).mp hr
  exact classOf_of_take settings (declared_of_ruleFor hadded)

end Registry

/-! ## What calls declare -/

namespace Setting

variable (lx : Lexer α η)

theorem tokens_apply (c : Setting α η) :
    (c.apply lx).tokens.names = c.token?.elim lx.tokens.names (States.add · lx.tokens.names) := by
  cases c with
  | token name => exact lx.tokens.declare_names name
  | rule spec action => exact congrArg TokenTable.names (addRule_verdict lx spec action).2.1.tokens
  | define name fragment =>
    rw [apply, Lexer.define]
    cases lx.definitions.define? name fragment <;> rfl
  | declare name c =>
    rw [apply, Lexer.declare]
    cases lx.states.declare? name c <;> rfl
  | option name on =>
    rw [apply, setOption]
    cases lx.options.set? name on <;> rfl
  | defaultRule => rfl
  | handler => rfl

/-- A declared state stays declared. -/
theorem declared_apply (c : Setting α η) {state : Text} (h : state ∈ lx.states.all) :
    state ∈ (c.apply lx).states.all := by
  rw [(c.stock_apply lx).1]
  cases c with
  | declare name c =>
    show state ∈ ((lx.states.declare? name c).getD lx.states).all
    cases hdeclared : lx.states.declare? name c with
    | none => exact h
    | some t =>
      rw [Option.getD_some, (States.declare?_some hdeclared).2.1, States.mem_add]
      exact .inr h
  | _ => exact h

end Setting

namespace Registry

/-- **The states are those that were declared**, in the order in which they came up. -/
theorem all_configured (settings : List (Setting α η)) :
    (configured settings).states.all = stateNames settings := by
  induction settings using List.reverseRecOn with
  | nil => rfl
  | append_singleton settings c ih =>
    rw [configured_concat, (c.stock_apply _).1, stateNames_concat]
    cases c with
    | declare name c =>
      have hagrees := (agrees_configured settings).states
      rw [Setting.state?, Option.elim_some, ← ih]
      show (((configured settings).states.declare? name c).getD (configured settings).states).all =
        _
      cases hdeclared : (configured settings).states.declare? name c with
      | none =>
        have hclass : classOf settings name = some c :=
          (hagrees.ofClass c name).mp (States.declare?_none hdeclared)
        have hin : name ∈ (configured settings).states.all := by
          rw [hagrees.all, hclass]
          rfl
        rw [Option.getD_none, States.add, if_pos (List.contains_iff_mem.mpr hin)]
      | some t => rw [Option.getD_some, (States.declare?_some hdeclared).2.1]
    | _ => exact ih

/-- **The token names are those that were declared**, in the order in which they came up. -/
theorem names_configured (settings : List (Setting α η)) :
    (configured settings).tokens.names = tokenNames settings := by
  induction settings using List.reverseRecOn with
  | nil => rfl
  | append_singleton settings c ih =>
    rw [configured_concat, Setting.tokens_apply, ih, tokenNames_concat]

end Registry

open Registry

/-! ## Lexers with a history -/

namespace Lexer

/-- What is declared in a lexer fits together, and is what the calls `settings` declared. -/
structure Orderly (settings : List (Setting α η)) (lx : Lexer α η) : Prop where
  initial : lx.states.isDeclared States.initial = true
  active : lx.states.isDeclared lx.context.state = true
  /-- every declared state is listed once, in the order in which they were declared first -/
  states : lx.states.all = stateNames settings
  statesOnce : lx.states.all.Nodup
  /-- a declared state is in the class of its last declaration, and not in the other one -/
  classes : ∀ state, lx.states.isDeclared state = true → ∃ c, classOf settings state = some c ∧
    state ∈ lx.states.ofClass c ∧ state ∉ lx.states.ofClass c.other
  exclusive : ∀ state, lx.states.isExclusive state = true ↔ classOf settings state = some .exclusive
  ofClass : ∀ c, (lx.states.ofClass c).Nodup ∧
    ∀ state ∈ lx.states.ofClass c, lx.states.isDeclared state = true
  rules : ∀ state, lx.rules.rulesFor state ≠ [] → lx.states.isDeclared state = true
  defaults : ∀ state, lx.hasDefault state = true → lx.states.isDeclared state = true
  /-- token names are listed in the order in which they were declared first, and are different -/
  names : lx.tokens.names = tokenNames settings
  namesOnce : lx.tokens.names.Nodup
  /-- the types are the numbers from 1 on, in that order -/
  types : ∀ name type, lx.tokens.find? name = some ⟨name, type⟩ ↔
    1 ≤ type ∧ lx.tokens.names[type - 1]? = some name

/-- The second lexer has the states of the first and maybe more behind them, and the tokens of the
first with the types they have there. -/
structure Grows (lx lx' : Lexer α η) : Prop where
  states : lx.states.all <+: lx'.states.all
  names : lx.tokens.names <+: lx'.tokens.names
  find? : ∀ name tag, lx.tokens.find? name = some tag → lx'.tokens.find? name = some tag
  declareToken : ∀ name tag, lx.tokens.find? name = some tag → (lx'.declareToken name).1 = tag
  nameOf : ∀ name tag, lx.tokens.find? name = some tag → lx'.tokens.nameOf tag.type = name

/-- What comes of declaring a token is found from then on. -/
theorem find?_declareToken (lx : Lexer α η) (name : Text) (hnodup : lx.tokens.names.Nodup) :
    (lx.declareToken name).2.tokens.find? name = some (lx.declareToken name).1 := by
  show (lx.tokens.declare name).2.find? name = some (lx.tokens.declare name).1
  unfold TokenTable.declare
  cases hfind : lx.tokens.find? name with
  | some tag => exact hfind
  | none =>
    have hnot := TokenTable.find?_eq_none.mp hfind
    refine TokenTable.find?_getElem ?_ ?_
    · refine List.nodup_append.mpr ⟨hnodup, by simp, ?_⟩
      rintro other hother _ hlast rfl
      exact hnot (List.mem_singleton.mp hlast ▸ hother)
    · simp

end Lexer

namespace History

variable {settings more : List (Setting α η)} {lx lx' : Lexer α η}

theorem states_eq (h : History settings lx) : lx.states = (Lexer.configured settings).states :=
  (congrArg Lexer.states h.book_eq.1 :)

theorem rules_eq (h : History settings lx) : lx.rules = (Lexer.configured settings).rules :=
  (congrArg Lexer.rules h.book_eq.1 :)

theorem tokens_eq (h : History settings lx) : lx.tokens = (Lexer.configured settings).tokens :=
  (congrArg Lexer.tokens h.book_eq.1 :)

theorem all_eq (h : History settings lx) : lx.states.all = stateNames settings := by
  rw [h.states_eq, all_configured]

theorem names_eq (h : History settings lx) : lx.tokens.names = tokenNames settings := by
  rw [h.tokens_eq, names_configured]

theorem initial_declared (h : History settings lx) : States.initial ∈ lx.states.all := by
  rw [h.all_eq, stateNames]
  exact List.mem_eraseDups.mpr List.mem_cons_self

/-- **The active state is declared.** It changes when a declared one is begun, and when a source is
attached; what is declared stays so. -/
theorem active_declared (h : History settings lx) : lx.context.state ∈ lx.states.all := by
  induction h with
  | new => exact List.mem_singleton_self _
  | @register settings lx h s ih =>
    rw [(Setting.registered lx s).context]
    exact s.declared_apply lx ih
  | @begin settings lx lx' h state hb ih =>
    have hdeclared : lx.states.isDeclared state = true := by
      by_contra hnot
      rw [Lexer.begin, if_pos (by simpa using hnot)] at hb
      cases hb
    rw [begin_ok hb]
    exact List.contains_iff_mem.mp hdeclared
  | @attach settings lx h s ih =>
    rw [(attached_attachSource lx s).context, (attached_attachSource lx s).states]
    exact h.initial_declared
  | fail _ e ih => exact ih
  | note _ level n ih => exact ih
  | stop h haim ih =>
    have hkept := (looks_of_aim h.upToDate.onto haim).kept
    rwa [hkept.context, hkept.states]
  | broken h haim ih | dispatched h haim _ ih =>
    have hkept := (looks_of_aim h.upToDate.onto haim).kept
    rw [← hkept.context, ← hkept.states] at ih
    exact ih
  | resumed _ _ ih => exact ih

/-- A lexer with a history is orderly. -/
theorem orderly (h : History settings lx) : lx.Orderly settings := by
  have hagrees := agrees_configured settings
  have hclassed : Classed settings lx.states := h.states_eq ▸ hagrees.states
  have hdeclared (state : Text) : lx.states.isDeclared state = true ↔
      (classOf settings state).isSome := by
    rw [States.isDeclared, List.contains_iff_mem, hclassed.all]
  have hnames : lx.tokens.names.Nodup := by
    rw [h.names_eq]
    exact nodup_eraseDups _
  constructor
  case initial => exact List.contains_iff_mem.mpr h.initial_declared
  case active => exact List.contains_iff_mem.mpr h.active_declared
  case states => exact h.all_eq
  case statesOnce =>
    rw [h.all_eq]
    exact nodup_eraseDups _
  case classes =>
    intro state hstate
    obtain ⟨c, hc⟩ := Option.isSome_iff_exists.mp ((hdeclared state).mp hstate)
    refine ⟨c, hc, (hclassed.ofClass c state).mpr hc, fun hother => ?_⟩
    rw [hclassed.ofClass, hc] at hother
    cases c <;> cases hother
  case exclusive =>
    intro state
    rw [States.isExclusive, Bool.and_eq_true, hdeclared, List.contains_iff_mem]
    rw [show lx.states.exclusive = lx.states.ofClass .exclusive from rfl, hclassed.ofClass]
    constructor
    · rintro ⟨-, hc⟩
      exact hc
    · intro hc
      exact ⟨by rw [hc]; rfl, hc⟩
  case ofClass =>
    intro c
    refine ⟨hclassed.nodup c, fun state hstate => ?_⟩
    rw [hdeclared, (hclassed.ofClass c state).mp hstate]
    rfl
  case rules =>
    intro state hne
    rw [h.rules_eq, hagrees.rules] at hne
    refine (hdeclared state).mpr (declared_of_rulesAdded fun hnil => hne ?_)
    rw [hnil]
    rfl
  case defaults =>
    intro state hdefault
    rw [hasDefault, h.rules_eq, hagrees.defaults, defaultsAdded_isSome] at hdefault
    obtain ⟨i, action, -, hc⟩ := hdefault
    exact (hdeclared state).mpr (classOf_of_take settings (by rw [hc]; rfl))
  case names => exact h.names_eq
  case namesOnce => exact hnames
  case types =>
    intro name type
    constructor
    · intro hfind
      obtain ⟨i, hi, heq⟩ := TokenTable.find?_some hfind
      cases heq
      exact ⟨Nat.succ_pos i, hi⟩
    · rintro ⟨hpos, hname⟩
      rw [TokenTable.find?_getElem hnames hname, Nat.sub_add_cancel hpos]

/-- What is declared is declared in all lexers that the same history leads to later. -/
theorem grows (h : History settings lx) (h' : History (settings ++ more) lx') : lx.Grows lx' := by
  have hnames : lx.tokens.names <+: lx'.tokens.names := by
    rw [h.names_eq, h'.names_eq]
    exact tokenNames_prefix settings more
  have hfind (name : Text) (tag : TokenTag) (ht : lx.tokens.find? name = some tag) :
      lx'.tokens.find? name = some tag := TokenTable.find?_of_prefix hnames ht
  refine ⟨?_, hnames, hfind, fun name tag ht => TokenTable.declare_of_find? (hfind name tag ht), ?_⟩
  · rw [h.all_eq, h'.all_eq]
    exact stateNames_prefix settings more
  · intro name tag ht
    obtain ⟨i, hi, rfl⟩ := TokenTable.find?_some (hfind name tag ht)
    exact TokenTable.nameOf_getElem hi

end History

/-- **The registry invariant.** A lexer with a history is orderly, in the middle of a scan as well:
all its states, rules and tokens are as the calls so far declared them. Later on it may have more
states, behind those it has, and more tokens; a name that has a type keeps it, and a type its name.
This holds of whatever a caller does next, with actions that are callers, too. Declaring a token
makes its tag the one that is found. -/
theorem registry_orderly {settings : List (Setting α η)} {lx : Lexer α η}
    (h : History settings lx) :
    lx.Orderly settings ∧
      (∀ {more lx'}, History (settings ++ more) lx' → lx.Grows lx' ∧
        lx'.Orderly (settings ++ more)) ∧
      (∀ {υ ω β : Type} (staff : Staff α η υ ω) (depth : Nat) (p : Client α η ω β),
        ∃ more, History (settings ++ more) (p.on (staff.host depth) lx).2.1) ∧
      ∀ name, (lx.declareToken name).2.tokens.find? name = some (lx.declareToken name).1 := by
  refine ⟨h.orderly, fun h' => ⟨h.grows h', h'.orderly⟩, ?_, ?_⟩
  · intro υ ω β staff depth p
    have hsince : lx.Since settings := ⟨[], by rwa [List.append_nil]⟩
    exact p.history (staff.host_history depth settings) hsince
  · intro name
    exact lx.find?_declareToken name h.orderly.namesOnce

/-- Two states and two tokens, and a rule for all states. -/
def declaring : List (Setting Nat Unit) :=
  [.declare "A" .exclusive, .token "NUM", .token "ID", .rule "<*>x" (some 1),
    .declare "B" .inclusive, .defaultRule none]

/-- Actions that move a state to the other class and begin it, and declare a token and one that is
there. -/
def declarer : Staff Nat Unit Unit Unit where
  act _ _ world :=
    .ask (.setting (.declare "A" .inclusive)) fun _ => .ask (.setting (.token "OP")) fun _ =>
      .ask (.setting (.token "NUM")) fun _ => .ask (.begin "A") fun _ => .done {} world
  deliver _ _ world := .done () world

/-- A caller that attaches a text and makes a step. -/
def firstStep : Client Nat Unit Unit Unit :=
  .ask (.attach (.source (.ofText "xx"))) fun _ => .step () fun _ world => .done () world

/-- The lexer after that step. -/
def steppedOnce : Lexer Nat Unit := (firstStep.on (declarer.host 1) (configured declaring)).2.1

theorem registry_orderly_declarer :
    steppedOnce.context.state = "A" ∧ steppedOnce.states.all = [States.initial, "A", "B"] ∧
      steppedOnce.states.inclusive = [States.initial, "B", "A"] ∧
      steppedOnce.tokens.names = [Text.ofString "NUM", "ID", "OP"] ∧
        (configured declaring).Grows steppedOnce ∧
      steppedOnce.tokens.find? "ID" = some ⟨"ID", 2⟩ ∧ steppedOnce.tokens.nameOf (2 : Nat) = "ID" ∧
      ∃ more, steppedOnce.Orderly (declaring ++ more) := by
  obtain ⟨-, hlater, hclient, -⟩ := registry_orderly (History.configured declaring)
  obtain ⟨more, hist⟩ : ∃ more, History (declaring ++ more) steppedOnce :=
    hclient declarer 1 firstStep
  obtain ⟨hgrows, horderly⟩ := hlater hist
  have hfound : (configured declaring).tokens.find? "ID" = some ⟨"ID", 2⟩ := by decide +kernel
  have hstate : steppedOnce.context.state = "A" := by decide +kernel
  have hall : steppedOnce.states.all = [States.initial, "A", "B"] := by decide +kernel
  have hinclusive : steppedOnce.states.inclusive = [States.initial, "B", "A"] := by decide +kernel
  have hnames : steppedOnce.tokens.names = [Text.ofString "NUM", "ID", "OP"] := by decide +kernel
  have hkept := hgrows.find? "ID" _ hfound
  have hname := hgrows.nameOf "ID" _ hfound
  exact ⟨hstate, hall, hinclusive, hnames, hgrows, hkept, hname, more, horderly⟩

end Munch
