import Munch.Lexer.Scan

/-!
# Runs of a lexer

A run is what any caller can make happen to a lexer: registration, begun states, attached sources,
interruptions and steps, in any order. Actions and token handlers are callers, too: what they do to
the lexer in the middle of a step is a run of its own, which may hold further steps. A run comes
with its events.

* `scanOf es` is the source attached last in the events `es`, and what happened since then.
* `Chronicle` tells for each action and handler of a host the events of the calls it makes, and
  `Lexer.stepEvents` those of a step.
* `Run lx es lx'`: calls lead from `lx` to `lx'`, and the events `es` happen on the way.

Results:
* `Run.lexUnless`: a whole scan is a run, with the events of its steps.
* `Invariant.of_run`: what every single call keeps, and the parts of a step keep, holds after every
  run.
-/

namespace Munch

open Lexer

/-- What happens to a lexer. -/
inductive Event (α υ : Type) where
  | attached (s : Source)
  /-- a match with the context `c` is handed over to what takes it -/
  | dispatched (t : Taker α) (c : Context)
  /-- a token is handed to the handler -/
  | delivered (t : Token υ)
  /-- the latest dispatch that is not over is over -/
  | returned
  /-- a step finds the input consumed -/
  | exhausted

/-! ## The scan in progress -/

/-- The source attached last, and the events since then, when `e` happens after them. -/
def Event.next {α υ : Type} (scan : Option (Source × List (Event α υ))) (e : Event α υ) :
    Option (Source × List (Event α υ)) :=
  match e with
  | .attached s => some (s, [])
  | e => scan.map fun (s, seg) => (s, seg ++ [e])

/-- The source attached last, and the events since then. -/
def scanOf {α υ : Type} (es : List (Event α υ)) : Option (Source × List (Event α υ)) :=
  es.foldl Event.next none

/-- The source attached last. -/
def lastSource {α υ : Type} (es : List (Event α υ)) : Option Source := (scanOf es).map (·.1)

/-- Does the event attach a source? -/
def Event.attaches {α υ : Type} : Event α υ → Bool
  | .attached _ => true
  | _ => false

theorem scanOf_attached {α υ : Type} (es : List (Event α υ)) (s : Source) :
    scanOf (es ++ [.attached s]) = some (s, []) := by
  rw [scanOf, List.foldl_append]
  rfl

theorem scanOf_append {α υ : Type} {es fs : List (Event α υ)} (h : ∀ e ∈ fs, e.attaches = false) :
    scanOf (es ++ fs) = (scanOf es).map fun (s, seg) => (s, seg ++ fs) := by
  induction fs generalizing es with
  | nil => cases hs : scanOf es <;> simp [hs]
  | cons e fs ih =>
    have he : scanOf (es ++ [e]) = (scanOf es).map fun (s, seg) => (s, seg ++ [e]) := by
      rw [scanOf, List.foldl_append]
      cases e with
      | attached s => exact absurd (h _ List.mem_cons_self) (by simp [Event.attaches])
      | _ => rfl
    rw [← List.singleton_append, ← List.append_assoc,
      ih fun e he => h e (List.mem_cons_of_mem _ he), he]
    cases scanOf es <;> simp

theorem lastSource_attached {α υ : Type} (es : List (Event α υ)) (s : Source) :
    lastSource (es ++ [.attached s]) = some s := by
  rw [lastSource, scanOf_attached]
  rfl

theorem lastSource_append {α υ : Type} {es fs : List (Event α υ)}
    (h : ∀ e ∈ fs, e.attaches = false) : lastSource (es ++ fs) = lastSource es := by
  rw [lastSource, scanOf_append h, lastSource]
  cases scanOf es <;> rfl

/-! ## The events of calls -/

/-- The matches dispatched: what took them, and their contexts. -/
def dispatches {α υ : Type} (es : List (Event α υ)) : List (Taker α × Context) :=
  es.filterMap fun
    | .dispatched t c => some (t, c)
    | _ => none

/-- The contexts of the matches dispatched. -/
def contexts {α υ : Type} (es : List (Event α υ)) : List Context := (dispatches es).map (·.2)

theorem dispatches_append {α υ : Type} (es fs : List (Event α υ)) :
    dispatches (es ++ fs) = dispatches es ++ dispatches fs := List.filterMap_append

theorem contexts_append {α υ : Type} (es fs : List (Event α υ)) :
    contexts (es ++ fs) = contexts es ++ contexts fs := by
  rw [contexts, dispatches_append, List.map_append]
  rfl

/-- The events of the calls that the actions and handlers of a host make. -/
structure Chronicle (α η υ ω : Type) where
  act : α → Context → Lexer α η → ω → List (Event α υ)
  deliver : η → Token υ → Lexer α η → ω → List (Event α υ)

/-- Actions and handlers that make no calls of which there is anything to tell. -/
def Chronicle.silent {α η υ ω : Type} : Chronicle α η υ ω := ⟨fun _ _ _ _ => [], fun _ _ _ _ => []⟩

namespace Lexer

variable {α η υ ω : Type}

/-! ## The events of a step -/

/-- The events while an action runs. -/
def actionEvents (h : Host α η υ ω) (k : Chronicle α η υ ω) (action : Option α) (lx : Lexer α η)
    (world : ω) : List (Event α υ) :=
  match action with
  | none => []
  | some a =>
    let c := lx.context
    let (reply, after, world') := h.act a c lx world
    k.act a c lx world ++
      match after.effect c reply with
      | .token handler t => .delivered t :: k.deliver handler t after world'
      | _ => []

/-- The events of a dispatch. -/
def dispatchEvents (h : Host α η υ ω) (k : Chronicle α η υ ω) (t : Taker α) (n : Nat) (w : Window)
    (lx : Lexer α η) (world : ω) : List (Event α υ) :=
  if !w.keeps n then []
  else
    let lx := { lx with phase := .dispatching }.consumed n w
    .dispatched t lx.context :: actionEvents h k t.action lx world ++ [.returned]

/-- The events of a step that dispatches nothing. -/
def stopEvents : Progress → List (Event α υ)
  | .done => [.exhausted]
  | _ => []

theorem stopEvents_attaches (p : Progress) :
    ∀ e ∈ stopEvents (α := α) (υ := υ) p, e.attaches = false := by
  cases p <;> simp [stopEvents, Event.attaches]

/-- The events of a step. -/
def stepEvents (h : Host α η υ ω) (k : Chronicle α η υ ω) (lx : Lexer α η) (world : ω) :
    List (Event α υ) :=
  match lx.aim with
  | (.take t n w, lx) => dispatchEvents h k t n w lx world
  | (.stop p, _) => stopEvents p

/-- The events of a scan. -/
def lexEvents (h : Host α η υ ω) (k : Chronicle α η υ ω) (interrupted : ω → Option Error) :
    (limit : Nat) → Lexer α η → ω → List (Event α υ)
  | 0, _, _ => []
  | limit + 1, lx, world =>
    match (if lx.ended then none else interrupted world) with
    | some _ => []
    | none =>
      stepEvents h k lx world ++
        match lx.step h world with
        | (.more, lx, world) => lexEvents h k interrupted limit lx world
        | _ => []

end Lexer

/-! ## Runs -/

/-- A call that registers something. -/
inductive Setting (α η : Type) where
  | define (name fragment : Text)
  | declare (name : Text) (c : StateClass)
  | rule (spec : Text) (action : Option α)
  | defaultRule (action : Option α)
  | token (name : Text)
  | handler (target : Option η)
  | option (name : Text) (on : Bool)

section

variable {α η υ : Type}

/-- The lexer after a call that may fail; a failure leaves it as it is. -/
def Lexer.orSame (lx : Lexer α η) : Except Error (Lexer α η) → Lexer α η
  | .ok lx' => lx'
  | .error _ => lx

/-- The lexer after registration. -/
def Setting.apply (lx : Lexer α η) : Setting α η → Lexer α η
  | .define name fragment => lx.orSame (lx.define name fragment)
  | .declare name c => lx.declare name c
  | .rule spec action => (lx.addRule spec action).2
  | .defaultRule action => lx.addDefaultRule action
  | .token name => (lx.declareToken name).2
  | .handler target => { lx with handler := target }
  | .option name on => lx.orSame (lx.setOption name on)

/-- Calls lead from one lexer to another, with the events between them. -/
inductive Run : Lexer α η → List (Event α υ) → Lexer α η → Prop
  | nil (lx : Lexer α η) : Run lx [] lx
  | register {lx₀ lx : Lexer α η} {es : List (Event α υ)} (run : Run lx₀ es lx) (s : Setting α η) :
      Run lx₀ es (s.apply lx)
  | begin {lx₀ lx lx' : Lexer α η} {es : List (Event α υ)} (run : Run lx₀ es lx) (state : Text)
      (h : lx.begin state = .ok lx') : Run lx₀ es lx'
  | attach {lx₀ lx : Lexer α η} {es : List (Event α υ)} (run : Run lx₀ es lx) (s : Source) :
      Run lx₀ (es ++ [.attached s]) (lx.attachSource s)
  | interrupt {lx₀ lx : Lexer α η} {es : List (Event α υ)} (run : Run lx₀ es lx) (e : Error)
      (h : lx.ended = false) : Run lx₀ es (lx.fail e)
  | note {lx₀ lx : Lexer α η} {es : List (Event α υ)} (run : Run lx₀ es lx) (level : Level)
      (n : Notice) : Run lx₀ es (lx.note level n)
  | step {lx₀ lx : Lexer α η} {es : List (Event α υ)} {ω : Type} (run : Run lx₀ es lx)
      (h : Host α η υ ω) (k : Chronicle α η υ ω) (world : ω)
      (act : ∀ a c lx world, Run lx (k.act a c lx world) (h.act a c lx world).2.1)
      (deliver : ∀ handler t lx world,
        Run lx (k.deliver handler t lx world) (h.deliver handler t lx world).1) :
      Run lx₀ (es ++ lx.stepEvents h k world) (lx.step h world).2.1

/-- The actions and handlers of a host do to the lexer what callers can do, and `k` tells what
happens. -/
structure Host.Calls {ω : Type} (h : Host α η υ ω) (k : Chronicle α η υ ω) : Prop where
  act : ∀ a c lx world, Run lx (k.act a c lx world) (h.act a c lx world).2.1
  deliver : ∀ handler t lx world, Run lx (k.deliver handler t lx world)
    (h.deliver handler t lx world).1

/-- A new lexer after a list of calls that register something. -/
def Lexer.configured (settings : List (Setting α η)) : Lexer α η :=
  settings.foldl (fun lx s => s.apply lx) {}

theorem Run.settings {lx₀ lx : Lexer α η} {es : List (Event α υ)} (run : Run lx₀ es lx)
    (settings : List (Setting α η)) : Run lx₀ es (settings.foldl (fun lx s => s.apply lx) lx) := by
  induction settings generalizing lx with
  | nil => exact run
  | cons s settings ih => exact ih (run.register s)

/-- A scan is a run: at most `limit` steps, or an interruption between two of them. -/
theorem Run.lexUnless {ω : Type} {h : Host α η υ ω} {k : Chronicle α η υ ω} (hk : h.Calls k)
    (interrupted : ω → Option Error) (limit : Nat) {lx₀ lx : Lexer α η} {es : List (Event α υ)}
    (run : Run lx₀ es lx) (world : ω) :
    Run lx₀ (es ++ lx.lexEvents h k interrupted limit world)
      (lx.lexUnless h interrupted limit world).2.1 := by
  induction limit generalizing lx es world with
  | zero =>
    rw [Lexer.lexEvents, List.append_nil]
    exact run
  | succ limit ih =>
    rw [Lexer.lexEvents, Lexer.lexUnless]
    cases hint : (if lx.ended then none else interrupted world) with
    | some e =>
      rw [List.append_nil]
      refine run.interrupt e ?_
      cases hended : lx.ended with
      | false => rfl
      | true => rw [hended] at hint; cases hint
    | none =>
      have hstep := run.step h k world hk.act hk.deliver
      simp only
      rw [← List.append_assoc]
      rcases hp : lx.step h world with ⟨progress, lx', world'⟩
      rw [hp] at hstep
      cases progress with
      | more => exact ih hstep world'
      | done => rwa [List.append_nil]
      | failed e => rwa [List.append_nil]
      | broken => rwa [List.append_nil]

/-! ## What every call keeps -/

/-- What is kept by every call, and by every part of a step that dispatches a match. -/
structure Invariant (I : List (Event α υ) → Lexer α η → Prop) : Prop where
  register : ∀ {es lx}, I es lx → ∀ s : Setting α η, I es (s.apply lx)
  begin : ∀ {es lx lx'}, I es lx → ∀ state, lx.begin state = .ok lx' → I es lx'
  attach : ∀ {es lx}, I es lx → ∀ s, I (es ++ [.attached s]) (lx.attachSource s)
  fail : ∀ {es lx}, I es lx → ∀ e, I es (lx.fail e)
  note : ∀ {es lx}, I es lx → ∀ level n, I es (lx.note level n)
  stop : ∀ {es lx lx' p}, I es lx → lx.aim = (.stop p, lx') → I (es ++ stopEvents p) lx'
  broken : ∀ {es lx lx' t n w}, I es lx → lx.aim = (.take t n w, lx') →
    I es { lx' with phase := .dispatching }
  dispatched : ∀ {es lx lx' t n w}, I es lx → lx.aim = (.take t n w, lx') → w.keeps n = true →
    I (es ++ [.dispatched t ({ lx' with phase := .dispatching }.consumed n w).context])
      ({ lx' with phase := .dispatching }.consumed n w)
  delivered : ∀ {es lx}, I es lx → ∀ t, I (es ++ [.delivered t]) lx
  returned : ∀ {es lx}, I es lx → I (es ++ [.returned]) lx
  resumed : ∀ {es lx}, I es lx → lx.phase = .dispatching → I es { lx with phase := .matching }

namespace Invariant

variable {I : List (Event α υ) → Lexer α η → Prop}

theorem concluded (hI : Invariant I) {es : List (Event α υ)} {lx : Lexer α η} (h : I es lx)
    (failure : Option Error) : I (es ++ [.returned]) (lx.concluded failure).2 := by
  have hr := hI.returned h
  unfold Lexer.concluded
  split
  · exact hI.fail hr _
  · simp only
    split
    next hp => exact hI.resumed hr hp
    · exact hr

/-- The calls of an action and of the handler of its token keep an invariant. -/
theorem runAction (hI : Invariant I) {ω : Type} {h : Host α η υ ω} {k : Chronicle α η υ ω}
    (act : ∀ a c lx world es, I es lx → I (es ++ k.act a c lx world) (h.act a c lx world).2.1)
    (deliver : ∀ handler t lx world es, I es lx →
      I (es ++ k.deliver handler t lx world) (h.deliver handler t lx world).1)
    (action : Option α) {es : List (Event α υ)} {lx : Lexer α η} (hes : I es lx) (world : ω) :
    I (es ++ lx.actionEvents h k action world) (lx.runAction h action world).2.1 := by
  unfold Lexer.actionEvents Lexer.runAction
  cases action with
  | none => rwa [List.append_nil]
  | some a =>
    have ha := act a lx.context lx world es hes
    rcases hacted : h.act a lx.context lx world with ⟨reply, after, world'⟩
    rw [hacted] at ha
    simp only [hacted]
    rw [← List.append_assoc]
    cases after.effect lx.context reply with
    | nothing => rwa [List.append_nil]
    | failed e => rwa [List.append_nil]
    | token handler t =>
      have hd := deliver handler t after world' _ (hI.delivered ha t)
      rwa [List.append_assoc _ [_], List.singleton_append] at hd

/-- A step keeps an invariant that its actions keep. -/
theorem step (hI : Invariant I) {ω : Type} {h : Host α η υ ω} {k : Chronicle α η υ ω}
    (act : ∀ a c lx world es, I es lx → I (es ++ k.act a c lx world) (h.act a c lx world).2.1)
    (deliver : ∀ handler t lx world es, I es lx →
      I (es ++ k.deliver handler t lx world) (h.deliver handler t lx world).1)
    {es : List (Event α υ)} {lx : Lexer α η} (hes : I es lx) (world : ω) :
    I (es ++ lx.stepEvents h k world) (lx.step h world).2.1 := by
  unfold Lexer.stepEvents Lexer.step
  rcases haim : lx.aim with ⟨_ | p, lx'⟩
  next t n w =>
    unfold Lexer.dispatchEvents Lexer.dispatch
    by_cases hkeeps : w.keeps n = true
    · simp only [hkeeps, Bool.not_true, Bool.false_eq_true, if_false]
      rw [List.cons_append, List.append_cons, ← List.append_assoc]
      exact hI.concluded (hI.runAction act deliver _ (hI.dispatched hes haim hkeeps) world) _
    · simp only [hkeeps, Bool.not_false, if_true]
      rw [List.append_nil]
      exact hI.broken hes haim
  · exact hI.stop hes haim

/-- **An invariant holds after every run**, whatever the actions on the way did. -/
theorem of_run (hI : Invariant I) {lx lx' : Lexer α η} {es : List (Event α υ)} (run : Run lx es lx')
    {past : List (Event α υ)} (h : I past lx) : I (past ++ es) lx' := by
  induction run generalizing past with
  | nil => rwa [List.append_nil]
  | register _ s ih => exact hI.register (ih h) s
  | begin _ state hb ih => exact hI.begin (ih h) state hb
  | attach _ s ih => rw [← List.append_assoc]; exact hI.attach (ih h) s
  | interrupt _ e _ ih => exact hI.fail (ih h) e
  | note _ level n ih => exact hI.note (ih h) level n
  | step _ host k world _ _ ih act deliver =>
    rw [← List.append_assoc]
    exact hI.step (fun a c lx world es hes => act a c lx world hes)
      (fun handler t lx world es hes => deliver handler t lx world hes) (ih h) world

/-- What an invariant says of the events holds of them at every point of a run. -/
theorem always (hI : Invariant I) {Q : List (Event α υ) → Prop} (hQ : ∀ es lx, I es lx → Q es) :
    Invariant fun es lx => I es lx ∧ ∀ past, past <+: es → Q past := by
  have hone {es : List (Event α υ)} {e : Event α υ} {lx : Lexer α η} (h : I (es ++ [e]) lx)
      (hes : ∀ past, past <+: es → Q past) : ∀ past, past <+: es ++ [e] → Q past := by
    intro past hpast
    obtain rfl | hpast := List.prefix_concat_iff.mp hpast
    · exact hQ _ _ h
    · exact hes past hpast
  refine
    { register := fun h s => ⟨hI.register h.1 s, h.2⟩
      begin := fun h state hb => ⟨hI.begin h.1 state hb, h.2⟩
      attach := fun h s => ⟨hI.attach h.1 s, hone (hI.attach h.1 s) h.2⟩
      fail := fun h e => ⟨hI.fail h.1 e, h.2⟩
      note := fun h level n => ⟨hI.note h.1 level n, h.2⟩
      stop := ?_
      broken := fun h haim => ⟨hI.broken h.1 haim, h.2⟩
      dispatched := fun h haim hk =>
        ⟨hI.dispatched h.1 haim hk, hone (hI.dispatched h.1 haim hk) h.2⟩
      delivered := fun h t => ⟨hI.delivered h.1 t, hone (hI.delivered h.1 t) h.2⟩
      returned := fun h => ⟨hI.returned h.1, hone (hI.returned h.1) h.2⟩
      resumed := fun h hp => ⟨hI.resumed h.1 hp, h.2⟩ }
  intro es lx lx' p h haim
  have hstop := hI.stop h.1 haim
  refine ⟨hstop, ?_⟩
  cases p with
  | done => exact hone hstop h.2
  | more | failed | broken =>
    simp only [stopEvents, List.append_nil]
    exact h.2

end Invariant

end

end Munch
