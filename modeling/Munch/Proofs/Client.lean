import Munch.Proofs.Freshness

/-!
# Callers

A caller makes calls on a lexer one after the other; what it does next may depend on all that it was
told and on all that a lexer shows. A program that uses a lexer is a caller, and so are the actions
and token handlers that run in the middle of a scan.

* `Request`: a call that does not scan. A call that fails leaves the lexer as it is.
* `View`: what a lexer shows to its callers.
* `Client`: a caller, as the tree of its calls. `Client.on` runs it.
* `Staff`: actions and handlers that are callers. `Staff.host` lets them work, with the calls they
  make served in the same way.
* `History settings lx`: `lx` is a new lexer to which things have happened, and `settings` are the
  calls among them that register something.

Results:
* `Setting.apply_book`: what registration does depends on what was registered before, and on nothing
  else.
* `Client.history`: whatever a caller does to a lexer with a history, it has one afterwards.
-/

namespace Munch

open Lexer

variable {α η υ ω β : Type}

/-! ## Requests -/

/-- The error of a call that failed. -/
def errorOf : Except Error β → Option Error
  | .ok _ => none
  | .error e => some e

/-- The error that registration answers with. -/
def Setting.answer (lx : Lexer α η) : Setting α η → Option Error
  | .define name fragment => errorOf (lx.define name fragment)
  | .rule spec action => errorOf (lx.addRule spec action).1
  | .option name on => errorOf (lx.setOption name on)
  | _ => none

/-- A call that does not scan. -/
inductive Request (α η : Type) where
  | setting (s : Setting α η)
  | begin (state : Text)
  | attach (input : Lexer.Input)

/-- Makes a call. A failure leaves the lexer as it is. -/
def Request.on (lx : Lexer α η) : Request α η → Option Error × Lexer α η
  | .setting s => (s.answer lx, s.apply lx)
  | .begin state => (errorOf (lx.begin state), lx.orSame (lx.begin state))
  | .attach input => (errorOf (lx.attach input), lx.orSame (lx.attach input))

/-- The source that a call attaches. -/
def Request.source? : Request α η → Option Source
  | .attach (.source s) => some s
  | _ => none

/-- Beginning a state changes the context, and nothing else that matters. -/
theorem Lexer.begin_ok {lx lx' : Lexer α η} {state : Text} (h : lx.begin state = .ok lx') :
    lx' = { lx with context := { lx.context with state := state }, journal := lx'.journal } := by
  unfold Lexer.begin at h
  split at h
  · cases h
  · split at h
    next heq =>
      cases h
      rw [heq]
    · cases h
      rfl

/-- A request leaves the phase as it is, unless it attaches a source. -/
theorem Request.on_phase (r : Request α η) (lx : Lexer α η) :
    (r.on lx).2.phase = if r.source?.isSome then .idle else lx.phase := by
  cases r with
  | setting s => exact (Setting.registered lx s).phase
  | begin state =>
    show (lx.orSame (lx.begin state)).phase = lx.phase
    cases hb : lx.begin state with
    | error e => rfl
    | ok lx' =>
      rw [begin_ok hb]
      rfl
  | attach input =>
    cases input with
    | unusable what => rfl
    | source s => exact (attached_attachSource lx s).phase

/-- A request that attaches no source leaves the window as it is. -/
theorem Request.on_window {r : Request α η} (hr : r.source? = none) (lx : Lexer α η) :
    (r.on lx).2.window = lx.window := by
  cases r with
  | setting s => exact (Setting.registered lx s).window
  | begin state =>
    show (lx.orSame (lx.begin state)).window = lx.window
    cases hb : lx.begin state with
    | error e => rfl
    | ok lx' =>
      rw [begin_ok hb]
      rfl
  | attach input =>
    cases input with
    | unusable what => rfl
    | source s => cases hr

/-! ## What shows of a lexer -/

/-- What was registered, except the token handler. -/
def Lexer.book (lx : Lexer α η) : Lexer α η :=
  { definitions := lx.definitions, states := lx.states, rules := lx.rules, tokens := lx.tokens
    options := lx.options, warnings := lx.warnings }

/-- What a lexer shows to its callers. -/
structure View (α η : Type) where
  book : Lexer α η
  context : Context
  phase : Phase

/-- What the lexer shows. -/
def Lexer.view (lx : Lexer α η) : View α η := ⟨lx.book, lx.context, lx.phase⟩

namespace Lexer

theorem book_foldl {f : Lexer α η → β → Lexer α η} (hf : ∀ lx b, (f lx b).book = (f lx.book b).book)
    (bs : List β) (lx : Lexer α η) : (bs.foldl f lx).book = (bs.foldl f lx.book).book := by
  induction bs generalizing lx with
  | nil => rfl
  | cons b bs ih => rw [List.foldl_cons, List.foldl_cons, ih, hf, ← ih]

theorem book_bind (lx : Lexer α η) (r : Rule α) (state : Text) :
    (lx.bind r state).book = { lx.book with rules := lx.rules.put state r } := by
  unfold bind
  simp only
  split <;> rfl

theorem book_warnReferences (lx : Lexer α η) (spec pattern : Text) :
    (lx.warnReferences spec pattern).book = (lx.book.warnReferences spec pattern).book := by
  refine book_foldl (fun lx name => ?_) _ lx
  rw [show lx.book.definitions = lx.definitions from rfl]
  split <;> rfl

theorem book_addRule (lx : Lexer α η) (spec : Text) (action : Option α) :
    (lx.addRule spec action).2.book = (lx.book.addRule spec action).2.book ∧
      (lx.addRule spec action).1 = (lx.book.addRule spec action).1 := by
  have hwarned := book_warnReferences lx spec (lx.definitions.expand (Rule.splitSpec spec).2)
  have hoptions := congrArg Lexer.options hwarned
  unfold addRule
  simp only [show lx.book.targets = lx.targets from rfl,
    show lx.book.definitions = lx.definitions from rfl]
  cases lx.targets (Rule.splitSpec spec).1 with
  | error e => exact ⟨rfl, rfl⟩
  | ok states =>
    change (lx.warnReferences _ _).options = (lx.book.warnReferences _ _).options at hoptions
    simp only [hoptions]
    cases compileRule _ _ action with
    | error e => exact ⟨hwarned, rfl⟩
    | ok r =>
      refine ⟨?_, rfl⟩
      have hbind (lx : Lexer α η) (s : Text) : (lx.bind r s).book = (lx.book.bind r s).book := by
        rw [book_bind, book_bind]
        rfl
      show book (states.foldl (fun lx s => lx.bind r s) _) =
        book (states.foldl (fun lx s => lx.bind r s) _)
      rw [book_foldl hbind, hwarned, ← book_foldl hbind]

end Lexer

/-- **What registration does depends on what was registered before**, and on nothing else. -/
theorem Setting.apply_book (lx : Lexer α η) (s : Setting α η) :
    (s.apply lx).book = (s.apply lx.book).book ∧ s.answer lx = s.answer lx.book := by
  cases s with
  | define name fragment =>
    simp only [Setting.apply, Setting.answer, Lexer.define,
      show lx.book.definitions = lx.definitions from rfl]
    cases lx.definitions.define? name fragment <;> exact ⟨rfl, rfl⟩
  | declare name c =>
    refine ⟨?_, rfl⟩
    simp only [Setting.apply, Lexer.declare, show lx.book.states = lx.states from rfl]
    cases lx.states.declare? name c <;> rfl
  | rule spec action =>
    obtain ⟨hbook, hanswer⟩ := Lexer.book_addRule lx spec action
    exact ⟨hbook, congrArg errorOf hanswer⟩
  | defaultRule action => exact ⟨rfl, rfl⟩
  | token name => exact ⟨rfl, rfl⟩
  | handler target => exact ⟨rfl, rfl⟩
  | option name on =>
    simp only [Setting.apply, Setting.answer, Lexer.setOption,
      show lx.book.options = lx.options from rfl]
    cases lx.options.set? name on <;> exact ⟨rfl, rfl⟩

/-- The token handler that a call sets. -/
def Setting.handler? : Setting α η → Option (Option η)
  | .handler target => some target
  | _ => none

theorem Lexer.handler_foldl {f : Lexer α η → β → Lexer α η}
    (hf : ∀ lx b, (f lx b).handler = lx.handler) (bs : List β) (lx : Lexer α η) :
    (bs.foldl f lx).handler = lx.handler := by
  induction bs generalizing lx with
  | nil => rfl
  | cons b bs ih => exact (ih (f lx b)).trans (hf lx b)

theorem Lexer.handler_addRule (lx : Lexer α η) (spec : Text) (action : Option α) :
    (lx.addRule spec action).2.handler = lx.handler := by
  have hwarned (pattern : Text) : (lx.warnReferences spec pattern).handler = lx.handler := by
    refine handler_foldl (fun lx name => ?_) _ lx
    split <;> rfl
  unfold addRule
  simp only
  split
  · rfl
  next states _ =>
    split
    · exact hwarned _
    next r _ =>
      refine (handler_foldl (fun lx s => ?_) states _).trans (hwarned _)
      unfold bind
      simp only
      split <;> rfl

/-- Only one call changes the token handler. -/
theorem Setting.apply_handler (lx : Lexer α η) (s : Setting α η) :
    (s.apply lx).handler = s.handler?.getD lx.handler := by
  cases s with
  | define name fragment =>
    simp only [Setting.apply, Lexer.define]
    cases lx.definitions.define? name fragment <;> rfl
  | declare name c =>
    simp only [Setting.apply, Lexer.declare]
    cases lx.states.declare? name c <;> rfl
  | rule spec action => exact Lexer.handler_addRule lx spec action
  | defaultRule action => rfl
  | token name => rfl
  | handler target => rfl
  | option name on =>
    simp only [Setting.apply, Lexer.setOption]
    cases lx.options.set? name on <;> rfl

/-! ## Clients -/

/-- A caller: the tree of the calls it makes. It comes to a result, and keeps a world of its own,
which it lends to the actions that run while it scans. -/
inductive Client (α η ω β : Type) where
  | done (result : β) (world : ω)
  /-- asks the lexer for what it shows -/
  | look (next : View α η → Client α η ω β)
  | ask (r : Request α η) (next : Option Error → Client α η ω β)
  | step (world : ω) (next : Progress → ω → Client α η ω β)
  /-- ends the scan with an error, unless it has ended -/
  | interrupt (e : Error) (next : Client α η ω β)

/-- Runs a caller on a lexer, with a host for the actions of its steps. -/
def Client.on (h : Host α η υ ω) : Client α η ω β → Lexer α η → β × Lexer α η × ω
  | .done result world, lx => (result, lx, world)
  | .look next, lx => (next lx.view).on h lx
  | .ask r next, lx => (next (r.on lx).1).on h (r.on lx).2
  | .step world next, lx =>
    let (p, lx, world) := lx.step h world
    (next p world).on h lx
  | .interrupt e next, lx => next.on h (if lx.ended then lx else lx.fail e)

/-- Actions and token handlers that are callers. -/
structure Staff (α η υ ω : Type) where
  act : α → Context → ω → Client α η ω (Reply υ)
  deliver : η → Token υ → ω → Client α η ω Unit

/-- The host whose actions and handlers are callers; `h` serves their own steps. -/
def Staff.serve (staff : Staff α η υ ω) (h : Host α η υ ω) : Host α η υ ω where
  act a c lx world := (staff.act a c world).on h lx
  deliver handler t lx world := ((staff.deliver handler t world).on h lx).2

/-- The host whose actions and handlers are callers, nested at most `depth` deep; deeper ones do
nothing. -/
def Staff.host (staff : Staff α η υ ω) : (depth : Nat) → Host α η υ ω
  | 0 => ⟨fun _ _ lx world => ({}, lx, world), fun _ _ lx world => (lx, world)⟩
  | depth + 1 => staff.serve (staff.host depth)

/-! ## Histories -/

/-- What has happened to a new lexer, one thing after the other: calls, and the parts of steps. The
calls that registered something are remembered. -/
inductive History : List (Setting α η) → Lexer α η → Prop
  | new : History [] {}
  | register {settings : List (Setting α η)} {lx : Lexer α η} (h : History settings lx)
      (s : Setting α η) : History (settings ++ [s]) (s.apply lx)
  | begin {settings : List (Setting α η)} {lx lx' : Lexer α η} (h : History settings lx)
      (state : Text) (hb : lx.begin state = .ok lx') : History settings lx'
  | attach {settings : List (Setting α η)} {lx : Lexer α η} (h : History settings lx) (s : Source) :
      History settings (lx.attachSource s)
  | fail {settings : List (Setting α η)} {lx : Lexer α η} (h : History settings lx) (e : Error) :
      History settings (lx.fail e)
  | note {settings : List (Setting α η)} {lx : Lexer α η} (h : History settings lx) (level : Level)
      (n : Notice) : History settings (lx.note level n)
  /-- a step ends without a match -/
  | stop {settings : List (Setting α η)} {lx lx' : Lexer α η} {p : Progress}
      (h : History settings lx) (haim : lx.aim = (.stop p, lx')) : History settings lx'
  /-- a step breaks down with a match -/
  | broken {settings : List (Setting α η)} {lx lx' : Lexer α η} {t : Taker α} {n : Nat} {w : Window}
      (h : History settings lx) (haim : lx.aim = (.take t n w, lx')) :
      History settings { lx' with phase := .dispatching }
  /-- a step consumes a match, and its action is about to run -/
  | dispatched {settings : List (Setting α η)} {lx lx' : Lexer α η} {t : Taker α} {n : Nat}
      {w : Window}
      (h : History settings lx) (haim : lx.aim = (.take t n w, lx')) (hkeeps : w.keeps n = true) :
      History settings ({ lx' with phase := .dispatching }.consumed n w)
  /-- a step goes on after its action -/
  | resumed {settings : List (Setting α η)} {lx : Lexer α η} (h : History settings lx)
      (hp : lx.phase = .dispatching) : History settings { lx with phase := .matching }

namespace History

variable {settings : List (Setting α η)} {lx : Lexer α η}

theorem configured (settings : List (Setting α η)) : History settings (.configured settings) := by
  induction settings using List.reverseRecOn with
  | nil => exact .new
  | append_singleton settings s ih =>
    rw [Lexer.configured, List.foldl_append]
    exact ih.register s

/-- What every call keeps, and every part of a step, holds of every lexer with a history. -/
theorem invariant (h : History settings lx) {I : List (Event α υ) → Lexer α η → Prop}
    (hI : Invariant I) (hnew : I [] {}) : ∃ es, I es lx := by
  induction h with
  | new => exact ⟨[], hnew⟩
  | register _ s ih => exact ih.imp fun _ hes => hI.register hes s
  | begin _ state hb ih => exact ih.imp fun _ hes => hI.begin hes state hb
  | attach _ s ih =>
    obtain ⟨es, hes⟩ := ih
    exact ⟨_, hI.attach hes s⟩
  | fail _ e ih => exact ih.imp fun _ hes => hI.fail hes e
  | note _ level n ih => exact ih.imp fun _ hes => hI.note hes level n
  | stop _ haim ih =>
    obtain ⟨es, hes⟩ := ih
    exact ⟨_, hI.stop hes haim⟩
  | broken _ haim ih => exact ih.imp fun _ hes => hI.broken hes haim
  | dispatched _ haim hkeeps ih =>
    obtain ⟨es, hes⟩ := ih
    exact ⟨_, hI.dispatched hes haim hkeeps⟩
  | resumed _ hp ih => exact ih.imp fun _ hes => hI.resumed hes hp

end History

/-! ### Steps -/

/-- What is kept by the parts of a step, except for what its action and the handler do. -/
structure Lexer.Steady (P : Lexer α η → Prop) : Prop where
  fail : ∀ {lx}, P lx → ∀ e, P (lx.fail e)
  stop : ∀ {lx lx' p}, P lx → lx.aim = (.stop p, lx') → P lx'
  broken : ∀ {lx lx' t n w}, P lx → lx.aim = (.take t n w, lx') →
    P { lx' with phase := .dispatching }
  dispatched : ∀ {lx lx' t n w}, P lx → lx.aim = (.take t n w, lx') → w.keeps n = true →
    P ({ lx' with phase := .dispatching }.consumed n w)
  resumed : ∀ {lx}, P lx → lx.phase = .dispatching → P { lx with phase := .matching }

/-- The actions and handlers of a host keep a property of lexers. -/
structure Host.Keeps (h : Host α η υ ω) (P : Lexer α η → Prop) : Prop where
  act : ∀ {lx}, P lx → ∀ a c world, P (h.act a c lx world).2.1
  deliver : ∀ {lx}, P lx → ∀ handler t world, P (h.deliver handler t lx world).1

/-- An action keeps what the host keeps, and so does what comes of it. -/
theorem Host.Keeps.runAction {P : Lexer α η → Prop} {h : Host α η υ ω} (hh : h.Keeps P)
    {lx : Lexer α η} (hl : P lx) (action : Option α) (world : ω) :
    P (lx.runAction h action world).2.1 := by
  unfold Lexer.runAction
  cases action with
  | none => exact hl
  | some a =>
    have ha := hh.act hl a lx.context world
    simp only
    cases Lexer.effect _ _ _ with
    | nothing => exact ha
    | failed e => exact ha
    | token handler t => exact hh.deliver ha handler t _

namespace Lexer.Steady

variable {P : Lexer α η → Prop} {h : Host α η υ ω} {lx : Lexer α η}

theorem concluded (hP : Steady P) (hl : P lx) (failure : Option Error) :
    P (lx.concluded failure).2 := by
  unfold Lexer.concluded
  split
  · exact hP.fail hl _
  · simp only
    split
    next hp => exact hP.resumed hl hp
    · exact hl

/-- A step keeps what its parts keep, if its action and the handler keep it, too. -/
theorem step (hP : Steady P) (hh : h.Keeps P) (hl : P lx) (world : ω) :
    P (lx.step h world).2.1 := by
  unfold Lexer.step
  rcases haim : lx.aim with ⟨_ | p, lx'⟩
  next t n w =>
    simp only
    unfold Lexer.dispatch
    by_cases hkeeps : w.keeps n = true
    · simp only [hkeeps, Bool.not_true, Bool.false_eq_true, if_false]
      exact hP.concluded (hh.runAction (hP.dispatched hl haim hkeeps) t.action world) _
    · simp only [hkeeps, Bool.not_false, if_true]
      exact hP.broken hl haim
  · exact hP.stop hl haim

theorem lexUnless (hP : Steady P) (hh : h.Keeps P) (interrupted : ω → Option Error) (limit : Nat)
    (hl : P lx) (world : ω) : P (lx.lexUnless h interrupted limit world).2.1 := by
  induction limit generalizing lx world with
  | zero => exact hl
  | succ limit ih =>
    rw [Lexer.lexUnless]
    split
    · exact hP.fail hl _
    · have hstep := hP.step hh hl world
      rcases hp : lx.step h world with ⟨progress, lx', world'⟩
      rw [hp] at hstep
      cases progress with
      | more => exact ih hstep world'
      | done | failed | broken => exact hstep

end Lexer.Steady

theorem History.steady (settings : List (Setting α η)) : Lexer.Steady (History settings) where
  fail h e := h.fail e
  stop h haim := h.stop haim
  broken h haim := h.broken haim
  dispatched h haim hkeeps := h.dispatched haim hkeeps
  resumed h hp := h.resumed hp

/-- The lexer has a history, which goes on from `settings`. -/
def Lexer.Since (settings : List (Setting α η)) (lx : Lexer α η) : Prop :=
  ∃ more, History (settings ++ more) lx

theorem Lexer.Since.steady (settings : List (Setting α η)) :
    Lexer.Steady (Lexer.Since settings) where
  fail h e := h.imp fun _ hist => hist.fail e
  stop h haim := h.imp fun _ hist => hist.stop haim
  broken h haim := h.imp fun _ hist => hist.broken haim
  dispatched h haim hkeeps := h.imp fun _ hist => hist.dispatched haim hkeeps
  resumed h hp := h.imp fun _ hist => hist.resumed hp

theorem Lexer.Since.request {settings : List (Setting α η)} {lx : Lexer α η} (h : lx.Since settings)
    (r : Request α η) : (r.on lx).2.Since settings := by
  obtain ⟨more, hist⟩ := h
  cases r with
  | setting s =>
    refine ⟨more ++ [s], ?_⟩
    rw [← List.append_assoc]
    exact hist.register s
  | begin state =>
    refine ⟨more, ?_⟩
    show History _ (lx.orSame (lx.begin state))
    cases hb : lx.begin state with
    | error e => exact hist
    | ok lx' => exact hist.begin state hb
  | attach input =>
    refine ⟨more, ?_⟩
    cases input with
    | unusable what => exact hist
    | source s => exact hist.attach s

/-- **Whatever a caller does to a lexer with a history, it has one afterwards.** -/
theorem Client.history {settings : List (Setting α η)} {h : Host α η υ ω}
    (hh : h.Keeps (Lexer.Since settings)) (p : Client α η ω β) {lx : Lexer α η}
    (hl : lx.Since settings) : (p.on h lx).2.1.Since settings := by
  induction p generalizing lx with
  | done result world => exact hl
  | look next ih => exact ih _ hl
  | ask r next ih => exact ih _ (hl.request r)
  | step world next ih => exact ih _ _ ((Lexer.Since.steady settings).step hh hl world)
  | interrupt e next ih =>
    refine ih ?_
    split
    · exact hl
    · exact hl.imp fun _ hist => hist.fail e

/-- So do the actions and handlers of a staff. -/
theorem Staff.host_history (staff : Staff α η υ ω) (depth : Nat) (settings : List (Setting α η)) :
    (staff.host depth).Keeps (Lexer.Since settings) := by
  induction depth with
  | zero => exact ⟨fun hl _ _ _ => hl, fun hl _ _ _ => hl⟩
  | succ depth ih =>
    exact ⟨fun hl _ _ _ => Client.history ih _ hl, fun hl _ _ _ => Client.history ih _ hl⟩

end Munch
