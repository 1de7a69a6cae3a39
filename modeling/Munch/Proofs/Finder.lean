import Munch.Proofs.Reentry

/-!
# Scans with any finder

A scan asks for a match, and dispatches what is reported. Whatever is asked, a step that goes on has
consumed a rune: a match that is reported without runes counts for none. So a scan is over after as
many dispatches as its source has runes.

* `Finder`: anything that looks for a match; `Lexer.stepBy`, `Lexer.lexBy` and `Lexer.dispatchesBy`
  are a step, a scan and the dispatches of a scan that ask such a finder. `Finder.ReadsOn`: it may
  read on, and consumes nothing.
* `Chronicle.Quiet k`: actions and handlers attach no source.
* `Lexer.At R stop p lx`: the scan of `lx` has come to the rune `p` of an input, and no action is
  running.
* `Lexer.Outcome.Settles o lx`: a scan that came to `o` is over, and the phase of `lx` says how.

Results:
* `Lexer.lexBy_search`: the scan that asks the search of the lexer is the scan of the lexer.
* `Lexer.At.stepBy_advances`: one step gets further in the input, or ends the scan.
* **`Lexer.At.lexBy_ends`**: so a scan ends.
-/

namespace Munch

open Lexer

variable {α η υ ω : Type}

/-- What looks for a match in a window. -/
abbrev Finder (α η : Type) := Lexer α η → Window → Search α × Window × Lexer α η

/-- The finder may read on in the window, and consumes nothing. Nothing is said about what it
finds. -/
structure Finder.ReadsOn (m : Finder α η) : Prop where
  reads : ∀ {lx : Lexer α η} {w : Window} {R : List Rune} {stop : Stop}, lx.window = some w →
    w.Over R stop → Window.Reads w (m lx w).2.1
  window : ∀ {lx : Lexer α η} {w : Window} {R : List Rune} {stop : Stop}, lx.window = some w →
    w.Over R stop → (m lx w).2.2.window = some (m lx w).2.1

/-- Actions and handlers attach no source. -/
structure Chronicle.Quiet (k : Chronicle α η υ ω) : Prop where
  act : ∀ a c lx world, ∀ e ∈ k.act a c lx world, e.attaches = false
  deliver : ∀ handler t lx world, ∀ e ∈ k.deliver handler t lx world, e.attaches = false

theorem Chronicle.quiet_silent : (silent : Chronicle α η υ ω).Quiet where
  act _ _ _ _ _ he := absurd he List.not_mem_nil
  deliver _ _ _ _ _ he := absurd he List.not_mem_nil

/-! ## Asking a finder -/

namespace Lexer

/-- Looks for what is to be done in a scan that has begun. -/
def aimInBy (m : Finder α η) (w : Window) (lx : Lexer α η) : Aim α × Lexer α η :=
  let (isOver, peeked) := w.exhausted
  let lx := lx.see w peeked
  if isOver then
    match peeked.failure? with
    | some message => lx.refuse (readError message)
    | none => (.stop .done, { lx with phase := .exhausted }.remark (.exhausted lx.context.line))
  else
    let (found, after, next) := m lx peeked
    next.decideOn lx.context.state found after

/-- Looks for what is to be done. -/
def aimBy (m : Finder α η) (lx : Lexer α η) : Aim α × Lexer α η :=
  match lx.phase, lx.window with
  | .exhausted, _ => (.stop .done, lx)
  | .failed e, _ => (.stop (.failed e), lx)
  | .dispatching, _ => (.stop (.failed .reentrant), lx)
  | _, none => (.stop (.failed (.notASource "<nil>")), lx)
  | _, some w => aimInBy m w { lx with phase := .matching }

/-- Dispatches a single match. -/
def stepBy (m : Finder α η) (h : Host α η υ ω) (lx : Lexer α η) (world : ω) :
    Progress × Lexer α η × ω :=
  match lx.aimBy m with
  | (.take t n w, lx) => dispatch h t.action n w lx world
  | (.stop p, lx) => (p, lx, world)

/-- The match that a step dispatches: what takes it, and its context. -/
def matchBy (m : Finder α η) (lx : Lexer α η) : Option (Taker α × Context) :=
  match lx.aimBy m with
  | (.take t n w, lx) =>
    if w.keeps n then some (t, ({ lx with phase := .dispatching }.consumed n w).context) else none
  | (.stop _, _) => none

/-- Scans until the input is consumed or the scan fails, with at most `limit` steps. -/
def lexBy (m : Finder α η) (h : Host α η υ ω) :
    (limit : Nat) → Lexer α η → ω → Outcome × Lexer α η × ω
  | 0, lx, world => (.unfinished, lx, world)
  | limit + 1, lx, world =>
    match lx.stepBy m h world with
    | (.more, lx, world) => lexBy m h limit lx world
    | (.done, lx, world) => (.finished, lx, world)
    | (.failed e, lx, world) => (.failed e, lx, world)
    | (.broken, lx, world) => (.broken, lx, world)

/-- The matches that a scan dispatches. -/
def dispatchesBy (m : Finder α η) (h : Host α η υ ω) :
    (limit : Nat) → Lexer α η → ω → List (Taker α × Context)
  | 0, _, _ => []
  | limit + 1, lx, world =>
    (lx.matchBy m).toList ++
      match lx.stepBy m h world with
      | (.more, lx, world) => dispatchesBy m h limit lx world
      | _ => []

variable {lx : Lexer α η}

theorem aimBy_search (lx : Lexer α η) : lx.aimBy search = lx.aim := rfl

theorem stepBy_search (h : Host α η υ ω) (lx : Lexer α η) (world : ω) :
    lx.stepBy search h world = lx.step h world :=
  rfl

theorem lexBy_search (h : Host α η υ ω) (limit : Nat) (lx : Lexer α η) (world : ω) :
    lx.lexBy search h limit world = lx.lex h limit world := by
  induction limit generalizing lx world with
  | zero => rfl
  | succ limit ih =>
    rw [lexBy, lex, lexUnless, stepBy_search, ite_self]
    rcases lx.step h world with ⟨_ | _ | _ | _, lx, world⟩
    · exact ih lx world
    · rfl
    · rfl
    · rfl

theorem readsOn_search : Finder.ReadsOn (search : Finder α η) where
  reads hw ho := by
    have hsearch := searched_search hw ho
    obtain ⟨w', hw', hreads⟩ := hsearch.looks.window hw
    cases hsearch.window.symm.trans hw'
    exact hreads
  window hw ho := (searched_search hw ho).window

end Lexer

/-! ## Quiet actions -/

namespace Lexer

variable {lx : Lexer α η} {h : Host α η υ ω} {k : Chronicle α η υ ω}

/-- Quiet actions leave the rest of the input as it is, and report nothing but their token. -/
theorem runAction_still (hk : h.Calls k) (hquiet : k.Quiet) (hstill : lx.Still) (action : Option α)
    (world : ω) :
    (lx.runAction h action world).2.1.Still ∧ (lx.runAction h action world).2.1.window = lx.window ∧
      dispatches (lx.actionEvents h k action world) = [] := by
  unfold runAction actionEvents
  cases action with
  | none => exact ⟨hstill, rfl, rfl⟩
  | some a =>
    have hacted := (hk.act a lx.context lx world).still hstill (hquiet.act a lx.context lx world)
    rcases hact : h.act a lx.context lx world with ⟨reply, after, world'⟩
    rw [hact] at hacted
    obtain ⟨hafter, hwindow, hnone⟩ := hacted
    simp only [hact, hnone, List.nil_append]
    cases after.effect lx.context reply with
    | nothing => exact ⟨hafter, hwindow, rfl⟩
    | failed e => exact ⟨hafter, hwindow, rfl⟩
    | token handler t =>
      obtain ⟨hdelivered, hkept, hsilent⟩ := (hk.deliver handler t after world').still hafter
        (hquiet.deliver handler t after world')
      simp only [hsilent]
      exact ⟨hdelivered, hkept.trans hwindow, rfl⟩

/-! ## One step -/

/-- The scan has come to the rune `p` of an input, and no action is running. -/
structure At (R : List Rune) (stop : Stop) (p : Nat) (lx : Lexer α η) : Prop where
  phase : lx.phase ≠ .dispatching
  window : ∃ w, lx.window = some w ∧ w.Over R stop ∧ w.offset = p

theorem at_attachSource (lx : Lexer α η) (s : Source) :
    (lx.attachSource s).At s.pending s.reason 0 where
  phase := by
    rw [(attached_attachSource lx s).phase]
    rintro ⟨⟩
  window := ⟨_, (attached_attachSource lx s).window, Window.over_ofSource s, rfl⟩

/-- A step leaves the phase to an action that has ended the scan. -/
theorem concluded_kept (hp : lx.phase ≠ .dispatching) : lx.concluded none = (.more, lx) := by
  simp only [concluded, if_neg hp]

/-- A dispatch with quiet actions gets further in the input, and may end the scan with an error. -/
theorem dispatch_advances (hk : h.Calls k) (hquiet : k.Quiet) (lx : Lexer α η) {R : List Rune}
    {stop : Stop} {w : Window} {n : Nat} (ho : w.Over R stop) (hkeeps : w.keeps n = true)
    (action : Option α) (world : ω) :
    ((dispatch h action n w lx world).1 = .more ∧
      (dispatch h action n w lx world).2.1.At R stop (w.offset + n)) ∨
      ∃ e, (dispatch h action n w lx world).1 = .failed e ∧
        (dispatch h action n w lx world).2.1.phase = .failed e := by
  have hstill : (({ lx with phase := .dispatching } : Lexer α η).consumed n w).Still := .inl rfl
  obtain ⟨hafter, hwindow, -⟩ := runAction_still hk hquiet hstill action world
  have hover := ho.consume (Window.keeps_iff.mp hkeeps)
  unfold dispatch
  simp only [hkeeps, Bool.not_true, Bool.false_eq_true, if_false]
  generalize hran : (({ lx with phase := .dispatching } : Lexer α η).consumed n w).runAction h
    action world = ran
  obtain ⟨failure, lx', world'⟩ := ran
  rw [hran] at hafter hwindow
  cases failure with
  | some e => exact .inr ⟨e, rfl, rfl⟩
  | none =>
    refine .inl ⟨rfl, ?_⟩
    obtain hp | ⟨e, hp⟩ := hafter
    · rw [concluded_none hp]
      exact ⟨by rintro ⟨⟩, _, hwindow, hover, rfl⟩
    · have hne : lx'.phase ≠ .dispatching := by
        rw [show lx'.phase = .failed e from hp]
        rintro ⟨⟩
      rw [concluded_kept hne]
      exact ⟨hne, _, hwindow, hover, rfl⟩

/-- What a step comes to that starts at the rune `p` of the input, if it dispatches `taken`. -/
inductive Advances (R : List Rune) (stop : Stop) (p : Nat) (taken : Option (Taker α × Context)) :
    Progress × Lexer α η × ω → Prop
  | more {p' : Nat} {lx : Lexer α η} (world : ω) (hp : p < p') (hp' : p' ≤ R.length)
      (htaken : taken.toList.length = 1) (hat : lx.At R stop p') :
        Advances R stop p taken (.more, lx, world)
  | done {lx : Lexer α η} (world : ω) (htaken : taken = none) (hp : lx.phase = .exhausted) :
      Advances R stop p taken (.done, lx, world)
  | failed {e : Error} {lx : Lexer α η} (world : ω) (htaken : p + taken.toList.length ≤ R.length)
      (hp : lx.phase = .failed e) : Advances R stop p taken (.failed e, lx, world)
  | broken (lx : Lexer α η) (world : ω) (htaken : taken = none) :
      Advances R stop p taken (.broken, lx, world)

/-- What a step can be about to do at the rune `p` of the input: it dispatches a rune at least, or
the scan ends. -/
inductive Aims (R : List Rune) (stop : Stop) (p : Nat) : Aim α × Lexer α η → Prop
  | take (t : Taker α) {n : Nat} {w : Window} (lx : Lexer α η) (hpos : 0 < n) (ho : w.Over R stop)
      (hp : w.offset = p) : Aims R stop p (.take t n w, lx)
  | done {lx : Lexer α η} (hp : lx.phase = .exhausted) : Aims R stop p (.stop .done, lx)
  | failed {e : Error} {lx : Lexer α η} (hp : lx.phase = .failed e) :
      Aims R stop p (.stop (.failed e), lx)
  | broken (lx : Lexer α η) : Aims R stop p (.stop .broken, lx)

/-- Whatever is found in a window that was only read further, a match starts where the window
does. -/
theorem aims_aimInBy {m : Finder α η} (hm : m.ReadsOn) {R : List Rune} {stop : Stop} {w : Window}
    (ho : w.Over R stop) (lx : Lexer α η) : Aims R stop w.offset (aimInBy m w lx) := by
  unfold aimInBy
  simp only
  split
  · split
    · exact .failed rfl
    · exact .done rfl
  · have hpeeked := (Window.reads_peek w).onto ho
    have hreads := hm.reads (see_window lx w w.peek.2) hpeeked
    generalize hdecided : decideOn _ _ _ _ = decided
    obtain ⟨aim, lx'⟩ := decided
    cases aim with
    | take t n w' =>
      obtain ⟨rfl, -, -⟩ := decideOn_take hdecided
      refine .take t lx' (decideOn_take_pos hdecided) (hreads.onto hpeeked) ?_
      exact hreads.fixed.1.trans (Window.reads_peek w).fixed.1
    | stop q =>
      obtain ⟨rfl, -⟩ | ⟨e, rfl, hp⟩ := decideOn_stop hdecided
      · exact .broken lx'
      · exact .failed hp

theorem At.aims {m : Finder α η} (hm : m.ReadsOn) {R : List Rune} {stop : Stop} {p : Nat}
    (hat : lx.At R stop p) : Aims R stop p (lx.aimBy m) := by
  obtain ⟨w, hw, ho, rfl⟩ := hat.window
  unfold aimBy
  cases hphase : lx.phase with
  | idle | matching =>
    rw [hw]
    exact aims_aimInBy hm ho _
  | dispatching => exact absurd hphase hat.phase
  | exhausted => exact .done hphase
  | failed e => exact .failed hphase

/-- **One step gets further in the input, or ends the scan.** -/
theorem At.stepBy_advances {m : Finder α η} (hm : m.ReadsOn) (hk : h.Calls k) (hquiet : k.Quiet)
    {R : List Rune} {stop : Stop} {p : Nat} (hat : lx.At R stop p) (world : ω) :
    Advances R stop p (lx.matchBy m) (lx.stepBy m h world) := by
  have haims := hat.aims hm
  unfold stepBy matchBy
  generalize lx.aimBy m = aim at haims
  cases haims with
  | @take t n w lx' hpos ho hp =>
    subst hp
    simp only
    by_cases hkeeps : w.keeps n = true
    · have hle : w.offset + n ≤ R.length := (ho.consume (Window.keeps_iff.mp hkeeps)).offset_le
      have hstep := dispatch_advances hk hquiet lx' ho hkeeps t.action world
      rw [if_pos hkeeps]
      generalize dispatch h t.action n w lx' world = result at hstep
      obtain ⟨progress, after, world'⟩ := result
      obtain ⟨rfl, hat'⟩ | ⟨e, rfl, hp⟩ := hstep
      · exact .more world' (Nat.lt_add_of_pos_right hpos) hle rfl hat'
      · refine .failed world' ?_ hp
        show w.offset + 1 ≤ R.length
        omega
    · rw [if_neg hkeeps, dispatch]
      simp only [hkeeps, Bool.not_false, if_true]
      exact .broken _ world rfl
  | done hp => exact .done world rfl hp
  | failed hp =>
    obtain ⟨w, -, ho, rfl⟩ := hat.window
    exact .failed world ho.offset_le hp
  | broken lx' => exact .broken lx' world rfl

end Lexer

/-- The scan that came to `o` is over, and the phase of the lexer says how. -/
def Lexer.Outcome.Settles (o : Outcome) (lx : Lexer α η) : Prop :=
  match o with
  | .finished => lx.phase = .exhausted
  | .failed e => lx.phase = .failed e
  | .broken => True
  | .unfinished => False

namespace Lexer

variable {lx : Lexer α η} {h : Host α η υ ω} {k : Chronicle α η υ ω}

/-- **A scan ends**, and dispatches no more matches than there are runes left. The induction is on
the limit; each step that goes on leaves fewer runes. -/
theorem At.lexBy_ends {m : Finder α η} (hm : m.ReadsOn) (hk : h.Calls k) (hquiet : k.Quiet)
    {R : List Rune} {stop : Stop} (limit : Nat) {p : Nat} (hat : lx.At R stop p) (world : ω) :
    p + (lx.dispatchesBy m h limit world).length ≤ R.length ∧
      (R.length < p + limit →
        (lx.lexBy m h limit world).1.Settles (lx.lexBy m h limit world).2.1) := by
  have hle : p ≤ R.length := by
    obtain ⟨w, -, ho, rfl⟩ := hat.window
    exact ho.offset_le
  induction limit generalizing lx p world with
  | zero => exact ⟨hle, fun hlt => absurd hlt (by omega)⟩
  | succ limit ih =>
    have hstep := hat.stepBy_advances hm hk hquiet world
    rw [lexBy, dispatchesBy, List.length_append]
    generalize lx.stepBy m h world = result at hstep
    cases hstep with
    | more world' hp hp' htaken hat' =>
      obtain ⟨hdispatched, hends⟩ := ih hat' world' hp'
      exact ⟨by simp only; omega, fun hlt => hends (by omega)⟩
    | done world' htaken hphase => exact ⟨by simpa [htaken] using hle, fun _ => hphase⟩
    | failed world' htaken hphase => exact ⟨by simpa using htaken, fun _ => hphase⟩
    | broken lx' world' htaken => exact ⟨by simpa [htaken] using hle, fun _ => trivial⟩

/-- With quiet actions a step tells of its own dispatch only. -/
theorem dispatches_stepEvents (hk : h.Calls k) (hquiet : k.Quiet) (lx : Lexer α η) (world : ω) :
    dispatches (lx.stepEvents h k world) = (lx.matchBy search).toList := by
  unfold stepEvents matchBy
  rw [aimBy_search]
  rcases lx.aim with ⟨⟨t, n, w⟩ | p, lx'⟩
  · by_cases hkeeps : w.keeps n = true
    · have hstill : (({ lx' with phase := .dispatching } : Lexer α η).consumed n w).Still :=
        .inl rfl
      obtain ⟨-, -, hnone⟩ := runAction_still hk hquiet hstill t.action world
      simp only [dispatchEvents, hkeeps, Bool.not_true, Bool.false_eq_true, if_false, if_true,
        List.cons_append]
      rw [← List.singleton_append, dispatches_append, dispatches_append, hnone]
      rfl
    · simp only [dispatchEvents, hkeeps, Bool.not_false, if_true]
      rfl
  · cases p <;> rfl

theorem dispatches_lexEvents (hk : h.Calls k) (hquiet : k.Quiet) (limit : Nat) (lx : Lexer α η)
    (world : ω) :
    dispatches (lx.lexEvents h k (fun _ => none) limit world) =
      lx.dispatchesBy search h limit world := by
  induction limit generalizing lx world with
  | zero => rfl
  | succ limit ih =>
    rw [lexEvents, dispatchesBy, stepBy_search, ite_self]
    simp only
    rw [dispatches_append, dispatches_stepEvents hk hquiet]
    rcases lx.step h world with ⟨_ | _ | _ | _, lx', world'⟩
    · rw [ih]
    · rfl
    · rfl
    · rfl

end Lexer

end Munch
