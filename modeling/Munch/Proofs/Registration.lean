import Munch.Proofs.Verdict

/-!
# The rules that a history of calls leads to

A lexer that was set up by calls has the rules that the history of these calls says.

* `Registry.Classed`: the states of a lexer are in the classes that the history says.
* `Registry.Agrees`: a lexer says the same as a history.

Results:
* `Registry.agrees_configured`: a lexer says the same as its history.
* **`rule_table_of_history`**: the rules and default rules of each state are those of the history.
-/

namespace Munch

open Lexer

variable {α η β : Type}

/-! ## A lexer and its history -/

namespace Registry

/-- The states are those of the history. -/
structure Classed (past : List (Setting α η)) (s : States) : Prop where
  all : ∀ state, state ∈ s.all ↔ (classOf past state).isSome
  ofClass : ∀ c state, state ∈ s.ofClass c ↔ classOf past state = some c
  nodup : ∀ c, (s.ofClass c).Nodup

theorem classed_default : Classed ([] : List (Setting α η)) States.default := by
  have hclass (state : Text) : classOf ([] : List (Setting α η)) state =
      if state = States.initial then some .inclusive else none := rfl
  refine ⟨fun state => ?_, fun c state => ?_, fun c => ?_⟩
  · rw [hclass]
    by_cases hs : state = States.initial <;> simp [States.default, hs]
  · rw [hclass]
    cases c <;> by_cases hs : state = States.initial <;> simp [States.default, States.ofClass, hs]
  · cases c <;> simp [States.default, States.ofClass]

namespace Classed

variable {past : List (Setting α η)} {s : States}

/-- Calls that change no class leave the states as they are. -/
theorem concat (h : Classed past s) {c : Setting α η}
    (hc : ∀ state, (c.classFor? state).or (classOf past state) = classOf past state) :
    Classed (past ++ [c]) s := by
  have hclass (state : Text) : classOf (past ++ [c]) state = classOf past state := by
    rw [classOf_concat, hc]
  exact ⟨fun state => by rw [hclass, h.all], fun c state => by rw [hclass, h.ofClass], h.nodup⟩

theorem declare (h : Classed past s) (name : Text) (c : StateClass) :
    Classed (past ++ [.declare name c]) ((s.declare? name c).getD s) := by
  cases hdeclared : s.declare? name c with
  | none =>
    have hname : classOf past name = some c :=
      (h.ofClass c name).mp (States.declare?_none hdeclared)
    refine h.concat fun state => ?_
    rw [Setting.classFor?]
    split
    next hs => rw [← hs, hname, Option.some_or]
    · rfl
  | some t =>
    obtain ⟨hnot, hall, hclass, hother⟩ := States.declare?_some hdeclared
    have hlast (state : Text) : classOf (past ++ [.declare name c]) state =
        if name = state then some c else classOf past state := by
      rw [classOf_concat, Setting.classFor?]
      split <;> rfl
    -- each class is the one declared, or the other one
    have hcases (c' : StateClass) : c' = c ∨ c' = c.other := by
      cases c <;> cases c' <;> simp [StateClass.other]
    have hne : c ≠ c.other := by cases c <;> simp [StateClass.other]
    rw [Option.getD_some]
    refine ⟨fun state => ?_, fun c' state => ?_, fun c' => ?_⟩
    · rw [hlast, hall, States.mem_add, h.all]
      by_cases hs : name = state <;> simp [hs]
    · obtain rfl | rfl := hcases c'
      · rw [hlast, hclass, List.mem_append, h.ofClass, List.mem_singleton]
        by_cases hs : name = state <;> simp [hs, eq_comm]
      · rw [hlast, hother, (h.nodup _).mem_erase_iff, h.ofClass]
        by_cases hs : name = state <;> simp [hs, hne, eq_comm]
    · obtain rfl | rfl := hcases c'
      · rw [hclass]
        refine List.nodup_append.mpr ⟨h.nodup _, by simp, ?_⟩
        rintro state hstate _ hsame rfl
        exact hnot (List.mem_singleton.mp hsame ▸ hstate)
      · rw [hother]
        exact (h.nodup _).erase name

end Classed

theorem caseless_set (o : Options) (name : Text) (on : Bool) :
    ((o.set? name on).getD o).caseless = (Setting.option name on : Setting α η).caseless?.getD
      o.caseless := by
  unfold Setting.caseless? Options.set?
  by_cases hcaseless : name = Text.ofString "caseless"
  · subst hcaseless
    rfl
  · simp only [if_neg hcaseless]
    split
    · rfl
    · split <;> rfl

/-- The lexer says what the history says. -/
structure Agrees (past : List (Setting α η)) (lx : Lexer α η) : Prop where
  states : Classed past lx.states
  definitions : lx.definitions = fragments past
  caseless : lx.options.caseless = caseless past
  rules : ∀ state, lx.rules.rulesFor state = merged (rulesAdded state past)
  defaults : ∀ state, lx.rules.defaultFor state = (defaultsAdded state past).getLast?

namespace Agrees

variable {past : List (Setting α η)} {lx : Lexer α η}

/-- The states that a specification is for are found. -/
theorem targets_ok (h : Agrees past lx) {target : Rule.Target}
    (hadmits : admits past target = true) :
    ∃ states, lx.targets target = .ok states ∧ ∀ state, state ∈ states ↔
      reaches past state target = true := by
  cases target with
  | unnamed =>
    exact ⟨_, rfl, fun state => (h.states.ofClass .inclusive state).trans decide_eq_true_iff.symm⟩
  | every => exact ⟨_, rfl, fun state => by rw [h.states.all, reaches]⟩
  | named names =>
    refine ⟨names, ?_, fun state => (List.contains_iff_mem).symm⟩
    have hdeclared : names.find? (fun s => !lx.states.isDeclared s) = none := by
      rw [List.find?_eq_none]
      intro state hstate
      have hclass : (classOf past state).isSome := List.all_eq_true.mp hadmits state hstate
      simpa [States.isDeclared] using (h.states.all state).mpr hclass
    rw [targets, hdeclared]

theorem targets_error (h : Agrees past lx) {target : Rule.Target}
    (hadmits : admits past target = false) :
    ∃ state, lx.targets target = .error (.undeclaredState state) := by
  cases target with
  | unnamed => cases hadmits
  | every => cases hadmits
  | named names =>
    obtain ⟨state, hstate, hnone⟩ := List.all_eq_false.mp hadmits
    have hundeclared : (names.find? (fun s => !lx.states.isDeclared s)).isSome := by
      rw [List.find?_isSome]
      refine ⟨state, hstate, ?_⟩
      rw [Bool.not_eq_true', States.isDeclared, List.contains_eq_mem, decide_eq_false_iff_not,
        h.states.all]
      exact hnone
    obtain ⟨first, hfirst⟩ := Option.isSome_iff_exists.mp hundeclared
    exact ⟨first, by rw [targets, hfirst]⟩

/-- **A call registers the rule that the history says**, for the states that the history says. -/
theorem verdict (h : Agrees past lx) (spec : Text) (action : Option α) :
    match ruleOf past spec action with
    | some r => ∃ states, lx.verdict spec action = .ok (states, r) ∧
        ∀ state, state ∈ states ↔ reaches past state (Rule.splitSpec spec).1 = true
    | none => ∃ e, lx.verdict spec action = .error e := by
  unfold ruleOf Lexer.verdict
  rw [h.caseless, h.definitions]
  cases hadmits : admits past (Rule.splitSpec spec).1 with
  | false =>
    obtain ⟨state, htargets⟩ := h.targets_error hadmits
    rw [htargets]
    exact ⟨_, rfl⟩
  | true =>
    obtain ⟨states, htargets, hmem⟩ := h.targets_ok hadmits
    rw [htargets, if_pos rfl]
    cases compileRule _ _ action with
    | error e => exact ⟨_, rfl⟩
    | ok r => exact ⟨states, rfl, hmem⟩

theorem states_apply (h : Agrees past lx) (c : Setting α η) :
    Classed (past ++ [c]) (c.apply lx).states := by
  rw [(c.stock_apply lx).1]
  cases c with
  | declare name c => exact h.states.declare name c
  | _ => exact h.states.concat fun _ => Option.none_or

theorem definitions_apply (h : Agrees past lx) (c : Setting α η) :
    (c.apply lx).definitions = fragments (past ++ [c]) := by
  rw [(c.stock_apply lx).2.1, h.definitions]
  cases c with
  | define name fragment => exact (fragments_define past name fragment).symm
  | _ => exact (fragments_concat past rfl).symm

theorem caseless_apply (h : Agrees past lx) (c : Setting α η) :
    (c.apply lx).options.caseless = Registry.caseless (past ++ [c]) := by
  rw [(c.stock_apply lx).2.2, caseless_concat, ← h.caseless]
  cases c with
  | option name on => exact caseless_set lx.options name on
  | _ => rfl

/-- One rule more, for the states that it reaches. -/
theorem rulesFor_apply (h : Agrees past lx) (c : Setting α η) (state : Text) :
    (c.apply lx).rules.rulesFor state = merged (rulesAdded state (past ++ [c])) := by
  rw [rulesAdded, gather_concat]
  cases hadds : c.addsRule with
  | false =>
    rw [Setting.rules_apply lx hadds, h.rules, (adds_nothing past hadds state).1,
      Option.toList_none, List.append_nil, rulesAdded]
  | true =>
    cases c with
    | rule spec action =>
      obtain ⟨-, -, hrules⟩ := addRule_verdict lx spec action
      have hverdict := h.verdict spec action
      rw [Setting.apply, hrules, ruleFor]
      cases hrule : ruleOf past spec action with
      | none =>
        rw [hrule] at hverdict
        obtain ⟨e, he⟩ := hverdict
        rw [he, ite_self, Option.toList_none, List.append_nil]
        exact h.rules state
      | some r =>
        rw [hrule] at hverdict
        obtain ⟨states, hok, hmem⟩ := hverdict
        rw [hok]
        simp only
        rw [RuleTable.rulesFor_foldl_put, h.rules]
        by_cases hin : state ∈ states
        · rw [if_pos hin, if_pos ((hmem state).mp hin)]
          exact (merged_concat _ r).symm
        · rw [if_neg hin, if_neg fun hreaches => hin ((hmem state).mpr hreaches),
            Option.toList_none, List.append_nil, rulesAdded]
    | defaultRule action =>
      rw [show ruleFor state past (.defaultRule action) = none from rfl, Option.toList_none,
        List.append_nil, Setting.apply, addDefaultRule, RuleTable.rulesFor_foldl_putDefault]
      exact h.rules state
    | _ => cases hadds

/-- One default action more, for the states that are inclusive now. -/
theorem defaultFor_apply (h : Agrees past lx) (c : Setting α η) (state : Text) :
    (c.apply lx).rules.defaultFor state = (defaultsAdded state (past ++ [c])).getLast? := by
  rw [defaultsAdded, gather_concat]
  cases hadds : c.addsRule with
  | false =>
    rw [Setting.rules_apply lx hadds, h.defaults, (adds_nothing past hadds state).2,
      Option.toList_none, List.append_nil, defaultsAdded]
  | true =>
    cases c with
    | rule spec action =>
      obtain ⟨-, -, hrules⟩ := addRule_verdict lx spec action
      rw [show defaultOf state past (.rule spec action) = none from rfl, Option.toList_none,
        List.append_nil, Setting.apply, hrules]
      split
      · rw [RuleTable.defaultFor_foldl_put]
        exact h.defaults state
      · exact h.defaults state
    | defaultRule action =>
      rw [Setting.apply, addDefaultRule, RuleTable.defaultFor_foldl_putDefault, h.defaults,
        defaultOf, List.getLast?_append]
      by_cases hin : state ∈ lx.states.inclusive
      · rw [if_pos hin, if_pos ((h.states.ofClass .inclusive state).mp hin)]
        rfl
      · rw [if_neg hin, if_neg fun hclass => hin ((h.states.ofClass .inclusive state).mpr hclass)]
        rfl
    | _ => cases hadds

/-- **One call more.** -/
theorem apply (h : Agrees past lx) (c : Setting α η) : Agrees (past ++ [c]) (c.apply lx) :=
  ⟨h.states_apply c, h.definitions_apply c, h.caseless_apply c, h.rulesFor_apply c,
    h.defaultFor_apply c⟩

end Agrees

theorem configured_concat (settings : List (Setting α η)) (c : Setting α η) :
    configured (settings ++ [c]) = c.apply (configured settings) := by
  unfold configured
  rw [List.foldl_append, List.foldl_cons, List.foldl_nil]

/-- **A lexer says the same as its history.** -/
theorem agrees_configured (settings : List (Setting α η)) :
    Agrees settings (configured settings) := by
  induction settings using List.reverseRecOn with
  | nil =>
    exact ⟨classed_default, rfl, rfl, fun _ => rfl, fun _ => rfl⟩
  | append_singleton settings c ih =>
    rw [configured_concat]
    exact ih.apply c

/-- A state has a default action if it was inclusive when some call gave it one. -/
theorem defaultsAdded_isSome (state : Text) (settings : List (Setting α η)) :
    (defaultsAdded state settings).getLast?.isSome ↔ ∃ (i : Nat) (action : Option α),
      settings[i]? = some (.defaultRule action) ∧
        classOf (settings.take i) state = some .inclusive := by
  have hadds (past : List (Setting α η)) (c : Setting α η) (action : Option α) :
      defaultOf state past c = some action ↔ c = .defaultRule action ∧
        classOf past state = some .inclusive := by
    cases c <;> simp [defaultOf, and_comm]
  rw [List.getLast?_isSome, defaultsAdded]
  constructor
  · intro hne
    obtain ⟨action, hmem⟩ := List.exists_mem_of_ne_nil _ hne
    obtain ⟨i, c, hc, hadded⟩ := (mem_gather settings).mp hmem
    obtain ⟨rfl, hclass⟩ := (hadds _ _ _).mp hadded
    exact ⟨i, action, hc, hclass⟩
  · rintro ⟨i, action, hc, hclass⟩
    exact List.ne_nil_of_mem ((mem_gather settings).mpr ⟨i, _, hc, (hadds _ _ _).mpr ⟨rfl, hclass⟩⟩)

/-- Calls that add no rule leave the rules alone. -/
theorem rules_configured_append (settings : List (Setting α η)) {more : List (Setting α η)}
    (hmore : ∀ c ∈ more, c.addsRule = false) :
    (configured (settings ++ more)).rules = (configured settings).rules := by
  induction more using List.reverseRecOn with
  | nil => rw [List.append_nil]
  | append_singleton more c ih =>
    have hc : c.addsRule = false := hmore c (by simp)
    rw [← List.append_assoc, configured_concat, Setting.rules_apply _ hc,
      ih fun c' hc' => hmore c' (List.mem_append_left _ hc')]

/-- Registering a rule succeeds where the history says so. -/
theorem Agrees.addRule_ok_iff {settings : List (Setting α η)} {lx : Lexer α η}
    (h : Agrees settings lx) (spec : Text) (action : Option α) :
    (lx.addRule spec action).1 = .ok () ↔ (ruleOf settings spec action).isSome := by
  have hverdict := h.verdict spec action
  rw [(addRule_verdict _ spec action).1]
  cases hrule : ruleOf settings spec action with
  | some r =>
    rw [hrule] at hverdict
    obtain ⟨states, hok, -⟩ := hverdict
    rw [hok]
    exact ⟨fun _ => rfl, fun _ => rfl⟩
  | none =>
    rw [hrule] at hverdict
    obtain ⟨e, he⟩ := hverdict
    rw [he]
    exact ⟨by rintro ⟨⟩, by rintro ⟨⟩⟩

/-- Registering a rule fails for a state or a pattern, and leaves everything as it is. -/
theorem addRule_error {lx : Lexer α η} {spec : Text} {action : Option α} {e : Error}
    (he : (lx.addRule spec action).1 = .error e) :
    ((∃ state, e = .undeclaredState state) ∨ ∃ reason, e = .badPattern spec reason) ∧
      (lx.addRule spec action).2.rules = lx.rules ∧ SameStock lx (lx.addRule spec action).2 := by
  obtain ⟨hanswer, hstock, hrules⟩ := addRule_verdict lx spec action
  cases hverdict : lx.verdict spec action with
  | ok bound =>
    rw [hanswer, hverdict] at he
    cases he
  | error e' =>
    rw [hanswer, hverdict] at he
    cases he
    rw [hverdict] at hrules
    exact ⟨verdict_error hverdict, hrules, hstock⟩

end Registry

open Registry

/-- **The rule table is the one of the history.** After any calls that register something, the rules
of a state are those that the calls so far added to it: each pattern once, where it came up first,
and each with what the last call with this pattern said. Its default action is that of the last call
that reached it. Calls that add no rule alter none of these. Registering a rule succeeds where the
history says so; where it fails, for any lexer, it is for a state or a pattern, and everything
registered stays as it is.

Which states a specification is for, and which pattern it has, is said by `Rule.splitSpec_iff`. -/
theorem rule_table_of_history (settings : List (Setting α η)) :
    (∀ state,
      (configured settings).rules.rulesFor state = merged (rulesAdded state settings) ∧
        (configured settings).patterns state =
          ((rulesAdded state settings).map (·.pattern)).eraseDups ∧
        ((configured settings).patterns state).Nodup ∧
        (∀ r ∈ (configured settings).rules.rulesFor state,
          lastWith (rulesAdded state settings) r.pattern = some r) ∧
        (configured settings).rules.defaultFor state = (defaultsAdded state settings).getLast? ∧
        ((configured settings).hasDefault state = true ↔ ∃ (i : Nat) (action : Option α),
          settings[i]? = some (.defaultRule action) ∧
            classOf (settings.take i) state = some .inclusive)) ∧
      (∀ more : List (Setting α η), (∀ c ∈ more, c.addsRule = false) →
        (configured (settings ++ more)).rules = (configured settings).rules) ∧
      (∀ spec action, ((configured settings).addRule spec action).1 = .ok () ↔
        (ruleOf settings spec action).isSome) ∧
      ∀ (lx : Lexer α η) (spec : Text) (action : Option α) (e : Error),
        (lx.addRule spec action).1 = .error e →
        ((∃ state, e = .undeclaredState state) ∨ ∃ reason, e = .badPattern spec reason) ∧
          (lx.addRule spec action).2.rules = lx.rules ∧
            SameStock lx (lx.addRule spec action).2 := by
  have hagrees := agrees_configured settings
  refine ⟨fun state => ?_, fun more hmore => rules_configured_append settings hmore,
    fun spec action => hagrees.addRule_ok_iff spec action,
    fun lx spec action e he => addRule_error he⟩
  have hrules := hagrees.rules state
  have hpatterns : (configured settings).patterns state =
      ((rulesAdded state settings).map (·.pattern)).eraseDups := by
    rw [patterns, hrules, map_pattern_merged]
  have hdefault := hagrees.defaults state
  refine ⟨hrules, hpatterns, ?_, fun r hr => ?_, hdefault, ?_⟩
  · rw [hpatterns]
    exact nodup_eraseDups _
  · rw [hrules] at hr
    exact lastWith_of_mem_merged hr
  · rw [hasDefault, hdefault]
    exact defaultsAdded_isSome state settings

/-- A state that is exclusive at first, inclusive for one rule, and exclusive again. The rules for
it are given with white space in the lists of states, and one of them with a reference. -/
def reclassified : List (Setting Nat Unit) :=
  [.declare "A" .exclusive, .define "D" "d", .rule "x" (some 1), .rule "< * >y" (some 2),
    .rule "< A,A >y" (some 3), .rule "<initial , A>{D}+" (some 8), .rule "<>w" (some 9),
    .defaultRule (some 4), .declare "A" .inclusive, .rule "x" (some 5), .declare "A" .exclusive,
    .defaultRule (some 6), .rule "<B>z" (some 7)]

theorem rule_table_of_history_reclassified :
    ((configured reclassified).rules.rulesFor "A").map (fun r => (r.pattern, r.action)) =
        [(Text.ofString "y", some 3), (Text.ofString "(d)+", some 8), (Text.ofString "x", some 5)] ∧
      ((configured reclassified).rules.rulesFor "initial").map (fun r => (r.pattern, r.action)) =
        [(Text.ofString "x", some 5), (Text.ofString "y", some 2), (Text.ofString "(d)+", some 8),
          (Text.ofString "<>w", some 9)] ∧
      (configured reclassified).hasDefault "A" = false ∧
      (configured reclassified).rules.defaultFor "initial" = some (some 6) ∧
      (configured (reclassified ++ [.define "E" "e", .declare "A" .inclusive])).rules =
        (configured reclassified).rules ∧
      ((configured reclassified).addRule "<B>z" (some 7)).2.rules =
        (configured reclassified).rules := by
  obtain ⟨hstates, hmore, -, hfailed⟩ := rule_table_of_history reclassified
  obtain ⟨hrulesA, -, -, -, hdefaultA, -⟩ := hstates "A"
  obtain ⟨hrules, -, -, -, hdefault, -⟩ := hstates "initial"
  refine ⟨?_, ?_, ?_, ?_, hmore _ (by decide), ?_⟩
  · rw [hrulesA]
    decide +kernel
  · rw [hrules]
    decide +kernel
  · rw [hasDefault, hdefaultA]
    decide +kernel
  · rw [hdefault]
    decide +kernel
  · exact (hfailed (configured reclassified) "<B>z" (some 7) (.undeclaredState "B")
      (by decide +kernel)).2.1

end Munch
