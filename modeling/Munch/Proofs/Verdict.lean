import Munch.Proofs.Registry

/-!
# What a registration call does

A call that registers a rule puts it for the states of its specification, or fails. A call that
declares a state puts the state into a class, and takes it out of the other one. Nothing else that
was registered is altered.

* `Lexer.SameStock lx lx'`: the same was registered in both lexers, the rules aside.
* `Lexer.verdict`: what a call that registers a rule comes to.

Results:
* **`Lexer.addRule_verdict`**: registering a rule changes the rules of its states, and nothing else.
* `Setting.stock_apply`, `Setting.rules_apply`: what other calls change.
* `States.declare?_some`: declaring a state puts it into its class, and takes it out of the other
  one.
-/

namespace Munch

open Lexer

variable {α η : Type}

/-! ## Calls -/

namespace Lexer

/-- What was registered is the same, the rules aside. -/
structure SameStock (lx lx' : Lexer α η) : Prop where
  definitions : lx'.definitions = lx.definitions
  states : lx'.states = lx.states
  tokens : lx'.tokens = lx.tokens
  options : lx'.options = lx.options

theorem SameStock.trans {lx lx₁ lx₂ : Lexer α η} (h : SameStock lx lx₁) (h' : SameStock lx₁ lx₂) :
    SameStock lx lx₂ :=
  ⟨h'.definitions.trans h.definitions, h'.states.trans h.states, h'.tokens.trans h.tokens,
    h'.options.trans h.options⟩

theorem warnReferences_same (lx : Lexer α η) (spec pattern : Text) :
    SameStock lx (lx.warnReferences spec pattern) ∧
      (lx.warnReferences spec pattern).rules = lx.rules := by
  unfold warnReferences
  generalize references pattern = names
  induction names generalizing lx with
  | nil => exact ⟨⟨rfl, rfl, rfl, rfl⟩, rfl⟩
  | cons name names ih =>
    rw [List.foldl_cons]
    split
    · exact ih lx
    · have hwarn : SameStock lx (lx.warn (.undefinedName spec name)) := ⟨rfl, rfl, rfl, rfl⟩
      obtain ⟨hstock, hrules⟩ := ih (lx.warn (.undefinedName spec name))
      exact ⟨hwarn.trans hstock, hrules⟩

theorem foldl_bind_same (states : List Text) (lx : Lexer α η) (r : Rule α) :
    SameStock lx (states.foldl (fun lx s => lx.bind r s) lx) ∧
      (states.foldl (fun lx s => lx.bind r s) lx).rules =
        states.foldl (fun t s => t.put s r) lx.rules := by
  induction states generalizing lx with
  | nil => exact ⟨⟨rfl, rfl, rfl, rfl⟩, rfl⟩
  | cons s states ih =>
    have hbind : SameStock lx (lx.bind r s) ∧ (lx.bind r s).rules = lx.rules.put s r := by
      unfold bind
      simp only
      split <;> exact ⟨⟨rfl, rfl, rfl, rfl⟩, rfl⟩
    obtain ⟨hstock, hrules⟩ := ih (lx.bind r s)
    exact ⟨hbind.1.trans hstock, by rw [List.foldl_cons, hrules, hbind.2, List.foldl_cons]⟩

/-- What a call that registers a rule comes to: the states and the rule, or an error. -/
def verdict (lx : Lexer α η) (spec : Text) (action : Option α) :
    Except Error (List Text × Rule α) :=
  match lx.targets (Rule.splitSpec spec).1 with
  | .error e => .error e
  | .ok states =>
    match compileRule lx.options.caseless (lx.definitions.expand (Rule.splitSpec spec).2) action
      with
    | .error e => .error (.badPattern spec e)
    | .ok r => .ok (states, r)

/-- **Registering a rule** puts it for its states, if it succeeds, and changes nothing else. -/
theorem addRule_verdict (lx : Lexer α η) (spec : Text) (action : Option α) :
    (lx.addRule spec action).1 = (lx.verdict spec action).map (fun _ => ()) ∧
      SameStock lx (lx.addRule spec action).2 ∧
      (lx.addRule spec action).2.rules =
        match lx.verdict spec action with
        | .ok (states, r) => states.foldl (fun t s => t.put s r) lx.rules
        | .error _ => lx.rules := by
  unfold addRule verdict
  simp only
  cases lx.targets (Rule.splitSpec spec).1 with
  | error e => exact ⟨rfl, ⟨rfl, rfl, rfl, rfl⟩, rfl⟩
  | ok states =>
    obtain ⟨hstock, hrules⟩ :=
      warnReferences_same lx spec (lx.definitions.expand (Rule.splitSpec spec).2)
    simp only [hstock.options]
    cases compileRule lx.options.caseless (lx.definitions.expand (Rule.splitSpec spec).2) action
      with
    | error e => exact ⟨rfl, hstock, hrules⟩
    | ok r =>
      obtain ⟨hbound, hput⟩ :=
        foldl_bind_same states
          (lx.warnReferences spec (lx.definitions.expand (Rule.splitSpec spec).2)) r
      rw [hrules] at hput
      exact ⟨rfl, (hstock.trans hbound).trans ⟨rfl, rfl, rfl, rfl⟩, hput⟩

theorem verdict_error {lx : Lexer α η} {spec : Text} {action : Option α} {e : Error}
    (h : lx.verdict spec action = .error e) :
    (∃ state, e = .undeclaredState state) ∨ ∃ reason, e = .badPattern spec reason := by
  unfold verdict targets at h
  split at h
  next heq =>
    cases h
    split at heq
    · cases heq
    · cases heq
    · split at heq
      · cases heq
        exact .inl ⟨_, rfl⟩
      · cases heq
  · split at h
    · cases h
      exact .inr ⟨_, rfl⟩
    · cases h

end Lexer

namespace Setting

variable (lx : Lexer α η)

/-- Calls that add no rule leave the rules as they are. -/
theorem rules_apply {c : Setting α η} (hc : c.addsRule = false) :
    (c.apply lx).rules = lx.rules := by
  cases c with
  | rule => cases hc
  | defaultRule => cases hc
  | define name fragment =>
    rw [apply, Lexer.define]
    cases lx.definitions.define? name fragment <;> rfl
  | declare name c =>
    rw [apply, Lexer.declare]
    cases lx.states.declare? name c <;> rfl
  | option name on =>
    rw [apply, setOption]
    cases lx.options.set? name on <;> rfl
  | token => rfl
  | handler => rfl

/-- What a call makes of the states, the definitions and the options. -/
theorem stock_apply (c : Setting α η) :
    (c.apply lx).states =
        (match c with
        | .declare name c => (lx.states.declare? name c).getD lx.states
        | _ => lx.states) ∧
      (c.apply lx).definitions =
        (match c with
        | .define name fragment => (lx.definitions.define? name fragment).getD lx.definitions
        | _ => lx.definitions) ∧
      (c.apply lx).options =
        (match c with
        | .option name on => (lx.options.set? name on).getD lx.options
        | _ => lx.options) := by
  cases c with
  | rule spec action =>
    obtain ⟨-, hstock, -⟩ := addRule_verdict lx spec action
    exact ⟨hstock.states, hstock.definitions, hstock.options⟩
  | define name fragment =>
    simp only [apply, Lexer.define]
    cases lx.definitions.define? name fragment <;> exact ⟨rfl, rfl, rfl⟩
  | declare name c =>
    simp only [apply, Lexer.declare]
    cases lx.states.declare? name c <;> exact ⟨rfl, rfl, rfl⟩
  | option name on =>
    simp only [apply, setOption]
    cases lx.options.set? name on <;> exact ⟨rfl, rfl, rfl⟩
  | defaultRule => exact ⟨rfl, rfl, rfl⟩
  | token => exact ⟨rfl, rfl, rfl⟩
  | handler => exact ⟨rfl, rfl, rfl⟩

end Setting

/-! ## States -/

/-- The other class. A state leaves it when it is declared for this one. -/
def StateClass.other : StateClass → StateClass
  | inclusive => exclusive
  | exclusive => inclusive

namespace States

/-- The states of a class. -/
def ofClass (s : States) : StateClass → List Text
  | .inclusive => s.inclusive
  | .exclusive => s.exclusive

theorem mem_add {name state : Text} {names : List Text} :
    state ∈ add name names ↔ name = state ∨ state ∈ names := by
  unfold add
  split
  next hin =>
    have hname : name ∈ names := List.contains_iff_mem.mp hin
    exact ⟨.inr, fun h => h.elim (· ▸ hname) id⟩
  · rw [List.mem_append, List.mem_singleton, or_comm, eq_comm]

/-- A declaration changes nothing if the state has this class already. -/
theorem declare?_none {s : States} {name : Text} {c : StateClass} (h : s.declare? name c = none) :
    name ∈ s.ofClass c := by
  cases c <;>
  · rw [declare?] at h
    split at h
    next hin => exact List.contains_iff_mem.mp hin
    · cases h

/-- **A declaration** puts the state last in its class, and takes it out of the other one. -/
theorem declare?_some {s t : States} {name : Text} {c : StateClass}
    (h : s.declare? name c = some t) :
    name ∉ s.ofClass c ∧ t.all = add name s.all ∧ t.ofClass c = s.ofClass c ++ [name] ∧
      t.ofClass c.other = (s.ofClass c.other).erase name := by
  cases c <;>
  · rw [declare?] at h
    split at h
    · cases h
    next hnot =>
      cases h
      exact ⟨fun hin => hnot (List.contains_iff_mem.mpr hin), rfl, rfl, rfl⟩

end States

end Munch
