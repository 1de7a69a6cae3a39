import Munch.Proofs.Phases
import Munch.Proofs.Truncation

/-!
# Steps from within an action

While an action is running the phase of the lexer says so, and a step or a scan that the action asks
for is refused. The phase is the only guard: an action that attaches a source takes it away, and an
interruption that is asked for first gets past it.

Results:
* `Run.still`: without a source attached, an action leaves the guard in its place, or the scan
  failed.
* `Lexer.step_ne_reentrant`: nothing else answers with the error of a call that is refused.
* `Calls.attaches_of_dispatching`: calls that attach a source take the guard away.
* **`reentry_refused_iff`**: which calls from within an action are refused, and that these leave no
  trace.
-/

namespace Munch

open Lexer

variable {α η υ ω : Type}

/-! ## The guard -/

/-- An action is running, or the scan has failed. -/
def Lexer.Still (lx : Lexer α η) : Prop := lx.phase = .dispatching ∨ ∃ e, lx.phase = .failed e

theorem Lexer.Still.aim {lx : Lexer α η} (hstill : lx.Still) :
    ∃ e, lx.aim = (.stop (.failed e), lx) := by
  obtain hp | ⟨e, hp⟩ := hstill
  · exact ⟨_, aim_dispatching hp⟩
  · exact ⟨_, aim_failed hp⟩

/-- **An action that attaches no source leaves the guard in its place**, unless it interrupts the
scan. It reads nothing, and nothing happens that could be told. -/
theorem Run.still {lx lx' : Lexer α η} {es : List (Event α υ)} (run : Run lx es lx')
    (hstill : lx.Still) (hnone : ∀ e ∈ es, e.attaches = false) :
    lx'.Still ∧ lx'.window = lx.window ∧ es = [] := by
  induction run with
  | nil => exact ⟨hstill, rfl, rfl⟩
  | register _ s ih =>
    obtain ⟨hstill, hwindow, hes⟩ := ih hstill hnone
    refine ⟨?_, (Setting.registered _ s).window.trans hwindow, hes⟩
    rw [Lexer.Still, (Setting.registered _ s).phase]
    exact hstill
  | begin _ state hb ih =>
    rw [begin_ok hb]
    exact ih hstill hnone
  | attach _ s => cases hnone (.attached s) (by simp)
  | interrupt _ e _ ih =>
    obtain ⟨-, hwindow, hes⟩ := ih hstill hnone
    exact ⟨.inr ⟨e, rfl⟩, hwindow, hes⟩
  | note _ _ _ ih => exact ih hstill hnone
  | step _ h k world _ _ ih =>
    obtain ⟨hstill, hwindow, hes⟩ := ih hstill fun e he => hnone e (List.mem_append_left _ he)
    obtain ⟨e, haim⟩ := hstill.aim
    rw [step_stop h world haim, stepEvents, haim, hes]
    exact ⟨hstill, hwindow, rfl⟩

namespace Lexer

variable {lx : Lexer α η}

/-- **While an action is running a step is refused**, and leaves the lexer and the world as they
are. So is a scan, but an interruption goes first. -/
theorem refused_of_dispatching (hp : lx.phase = .dispatching) (h : Host α η υ ω) (world : ω) :
    lx.step h world = (.failed .reentrant, lx, world) ∧
      (∀ k, lx.stepEvents h k world = []) ∧
      ∀ interrupted limit, lx.lexUnless h interrupted (limit + 1) world =
        match interrupted world with
        | none => (.failed .reentrant, lx, world)
        | some e => (.failed e, lx.fail e, world) := by
  have hstep := step_stop h world (aim_dispatching hp)
  refine ⟨hstep, fun k => ?_, fun interrupted limit => ?_⟩
  · unfold stepEvents
    rw [aim_dispatching hp]
    rfl
  · have hended : lx.ended = false := by
      unfold ended
      rw [hp]
    rw [lexUnless, hended]
    simp only [Bool.false_eq_true, if_false, hstep]
    cases interrupted world <;> rfl

/-! ## Other answers -/

/-- Rules that cannot be compiled fail a search with a bad pattern. -/
theorem compileRules_failed {state : Text} {s : Search α} {e : Error}
    (h : (lx.compileRules state).1 = .error s) (hs : s = .failed e) :
    ∃ pattern reason, e = .badPattern pattern reason := by
  subst hs
  unfold compileRules at h
  simp only at h
  split at h
  · cases h
  · split at h <;> cases h <;> exact ⟨_, _, rfl⟩

/-- Rules that were compiled before fail no search. -/
theorem byteRules_failed {state : Text} {s : Search α} {e : Error}
    (h : (lx.byteRules state).1 = .error s) (hs : s = .failed e) :
    ∃ pattern reason, e = .badPattern pattern reason := by
  unfold byteRules at h
  simp only at h
  split at h
  · split at h
    · cases h
    · exact compileRules_failed h hs
  · exact compileRules_failed h hs

/-- What was found is no failure. -/
theorem ofHit_ne_failed (hit : Option (Rule α × Nat)) (e : Error) :
    Search.ofHit hit ≠ .failed e := by
  rcases hit with _ | ⟨r, n⟩ <;> rintro ⟨⟩

/-- A search fails only with bad patterns. -/
theorem search_failed {w : Window} {e : Error} (h : (lx.search w).1 = .failed e) :
    ∃ pattern reason, e = .badPattern pattern reason := by
  unfold search at h
  split at h
  · rw [searchBytes_eq] at h
    have hgoes := settingUp_byteSetup (rfl : lx.bufferBytes w = _)
    generalize lx.byteSetup w = result at h hgoes
    cases hgoes with
    | refused hrules => exact byteRules_failed (congrArg Prod.fst hrules) h
    | without => cases h
    | ended => cases h
    | ready => exact absurd h (ofHit_ne_failed _ e)
  · exact absurd h (ofHit_ne_failed _ e)

/-- What follows from a search is no refusal, unless the search was refused. -/
theorem decideOn_ne_reentrant {state : Text} {found : Search α} {w : Window}
    (hfound : found ≠ .failed .reentrant) :
    (lx.decideOn state found w).1 ≠ .stop (.failed .reentrant) := by
  unfold decideOn
  split
  next e =>
    intro heq
    cases heq
    exact hfound rfl
  · rintro ⟨⟩
  · split
    · rintro ⟨⟩
    · split
      · rintro ⟨⟩
      · split <;> rintro ⟨⟩

/-- No refusal comes of looking for a match in a scan that has begun. -/
theorem aimIn_ne_reentrant (lx : Lexer α η) (w : Window) :
    (lx.aimIn w).1 ≠ .stop (.failed .reentrant) := by
  unfold aimIn
  simp only
  split
  · split <;> rintro ⟨⟩
  · refine decideOn_ne_reentrant fun hfailed => ?_
    obtain ⟨pattern, reason, heq⟩ := search_failed hfailed
    cases heq

/-- No refusal comes of a dispatch: a token handler answers nothing, and the errors of actions say
so. -/
theorem dispatch_ne_reentrant (h : Host α η υ ω) (action : Option α) (n : Nat) (w : Window)
    (world : ω) : (lx.dispatch h action n w world).1 ≠ .failed .reentrant := by
  unfold dispatch
  split
  · rintro ⟨⟩
  · simp only
    cases hfailure : (({ lx with phase := .dispatching } : Lexer α η).consumed n w
      |>.runAction h action world).1 with
    | none => rintro ⟨⟩
    | some e =>
      have hagrees := runAction_failed hfailure
      rintro heq
      cases heq
      cases hagrees

/-- **Nothing else answers with the error of a call that is refused**: no step of a lexer that takes
itself to be at the start of a scan, or between two matches. -/
theorem step_ne_reentrant (hp : lx.phase = .idle ∨ lx.phase = .matching) (h : Host α η υ ω)
    (world : ω) : (lx.step h world).1 ≠ .failed .reentrant := by
  unfold step
  rcases haim : lx.aim with ⟨t, lx₁⟩
  cases t with
  | take t n w => exact dispatch_ne_reentrant h t.action n w world
  | stop p =>
    rintro rfl
    cases hw : lx.window with
    | none =>
      rw [aim_unattached hp hw] at haim
      cases haim
    | some w =>
      rw [aim_attached hp hw] at haim
      exact aimIn_ne_reentrant _ w (congrArg Prod.fst haim)

end Lexer

/-! ## Calls from within an action -/

/-- **Only calls that attach no source leave the guard in its place.** -/
theorem Calls.attaches_of_dispatching {lx lx' : Lexer α η} {es : List (Event α υ)}
    (calls : Calls lx es lx') (hrunning : lx'.phase = .dispatching) :
    ∀ e ∈ es, e.attaches = false := by
  induction calls with
  | nil => exact fun _ he => absurd he List.not_mem_nil
  | request _ r ih =>
    rw [Request.on_phase] at hrunning
    cases hs : r.source? with
    | none =>
      rw [hs] at hrunning
      simpa [Request.events, hs] using ih hrunning
    | some s =>
      rw [hs] at hrunning
      cases hrunning
  | interrupt _ e _ _ => cases hrunning
  | note _ _ _ ih => exact ih hrunning
  | @step lx' es _ calls h k world hreturns ih =>
    by_cases hnow : lx'.phase = .dispatching
    · rw [(refused_of_dispatching hnow h world).2.1 k.chronicle, List.append_nil]
      exact ih hnow
    · obtain ⟨-, -, hphase⟩ | ⟨-, -, hphase⟩ | ⟨e, -, hphase⟩ | ⟨e, -, hsame, -⟩ :=
        k.step_cases world hnow hreturns
      · rw [hphase] at hrunning
        split at hrunning <;> cases hrunning
      · cases hphase.symm.trans hrunning
      · cases hphase.symm.trans hrunning
      · rw [hsame] at hrunning
        exact absurd hrunning hnow

/-- **Calls from within an action.** The action is running on `lx`, its calls have led to `lx'`, and
the scan has not ended. If none of the calls attached a source, a step is refused and leaves no
trace, and so does a scan that is not interrupted at once. If one did, and nothing broke down, the
lexer takes itself to be outside of any action, and a step is not refused. -/
theorem reentry_refused_iff {lx lx' : Lexer α η} {es : List (Event α υ)}
    (hp : lx.phase = .dispatching) (hended : lx'.ended = false) :
    (Run lx es lx' → (∀ e ∈ es, e.attaches = false) → ∀ {ω : Type} (h : Host α η υ ω) (world : ω),
        lx'.step h world = (.failed .reentrant, lx', world) ∧
          (∀ k, lx'.stepEvents h k world = []) ∧
          ∀ interrupted limit, lx'.lexUnless h interrupted (limit + 1) world =
            match interrupted world with
            | none => (.failed .reentrant, lx', world)
            | some e => (.failed e, lx'.fail e, world)) ∧
      (Calls lx es lx' → ∀ {ω : Type} (h : Host α η υ ω) (world : ω),
        ((lx'.step h world).1 = .failed .reentrant ↔ ∀ e ∈ es, e.attaches = false) ∧
          ((∃ e ∈ es, e.attaches = true) → lx'.phase = .idle ∨ lx'.phase = .matching)) := by
  have hphases : lx'.phase = .dispatching ∨ lx'.phase = .idle ∨ lx'.phase = .matching := by
    cases hphase : lx'.phase <;> simp [ended, hphase] at hended ⊢
  have hguard (run : Run lx es lx') (hnone : ∀ e ∈ es, e.attaches = false) :
      lx'.phase = .dispatching := by
    obtain ⟨hrunning | ⟨e, hfailed⟩, -⟩ := run.still (.inl hp) hnone
    · exact hrunning
    · rw [ended_iff.mpr (.inr ⟨e, hfailed⟩)] at hended
      cases hended
  refine ⟨fun run hnone ω h world => refused_of_dispatching (hguard run hnone) h world,
    fun calls ω h world => ⟨⟨fun hrefused => ?_, fun hnone => ?_⟩, fun ⟨e, he, hattaches⟩ => ?_⟩⟩
  · obtain hrunning | hbetween := hphases
    · exact calls.attaches_of_dispatching hrunning
    · exact absurd hrefused (step_ne_reentrant hbetween h world)
  · rw [(refused_of_dispatching (hguard calls.run hnone) h world).1]
  · refine hphases.resolve_left fun hrunning => ?_
    rw [calls.attaches_of_dispatching hrunning e he] at hattaches
    cases hattaches

/-- The lexer that the action of the first match of `atStart` is called on. -/
def running : Lexer Nat Unit :=
  match atStart.aim with
  | (.take _ n w, lx) => { lx with phase := .dispatching }.consumed n w
  | (.stop _, lx) => lx

/-- `running` after a rule was added, and after its input was attached once more. -/
def ruled : Lexer Nat Unit := (Setting.rule "b" none).apply running

/-- `running` after another text was attached. -/
def restarted : Lexer Nat Unit := running.attachSource (.ofText "ab")

theorem reentry_refused_iff_restarted :
    (ruled.step restarter () = (.failed .reentrant, ruled, ()) ∧
        ruled.lexUnless restarter (fun _ => none) 1 () = (.failed .reentrant, ruled, ()) ∧
        ruled.lexUnless restarter (fun _ => some .canceled) 1 () =
          (.failed .canceled, ruled.fail .canceled, ())) ∧
      (restarted.step restarter ()).1 ≠ .failed .reentrant := by
  have hrunning : running.phase = .dispatching := by decide +kernel
  have hruled : Calls (υ := Unit) running [] ruled :=
    (Calls.nil running).request (.setting (.rule "b" none))
  have hrestarted : Calls (υ := Unit) running [.attached (.ofText "ab")] restarted :=
    (Calls.nil running).request (.attach (.source (.ofText "ab")))
  obtain ⟨hstep, -, hlex⟩ := (reentry_refused_iff hrunning (by decide +kernel)).1 hruled.run
    (by decide) restarter ()
  refine ⟨⟨hstep, hlex (fun _ => none) 0, hlex (fun _ => some .canceled) 0⟩, fun hrefused => ?_⟩
  have hnone :=
    ((reentry_refused_iff hrunning (by decide +kernel)).2 hrestarted restarter ()).1.mp hrefused
  cases hnone _ List.mem_cons_self

/-- Actions that attach a text and ask for a step of it; the world is what the first of these steps
answers. -/
def reenter : Host Nat Unit Unit (Option Progress) where
  act _ _ lx world :=
    match world with
    | none =>
      let (p, lx, _) := (lx.attachSource (.ofText "a")).step restarter ()
      ({}, lx, some p)
    | some p => ({}, lx, some p)
  deliver _ _ lx world := (lx, world)

/-- Actions that ask for a scan which is interrupted; the world is what the last of these scans
answers. -/
def interrupter : Host Nat Unit Unit (Option Outcome) where
  act _ _ lx _ :=
    let (o, lx, _) := lx.lexUnless restarter (fun _ => some .canceled) 1 ()
    ({}, lx, some o)
  deliver _ _ lx world := (lx, world)

/-- A step from within an action is not refused once the action has attached a source. A scan from
within an action that is interrupted at once fails the scan that the action belongs to. -/
theorem reentry_not_refused :
    (atStart.step reenter none).2.2 = some .more ∧
      (atStart.step interrupter none).2.2 = some (.failed .canceled) ∧
      (atStart.step interrupter none).2.1.phase = .failed .canceled := by
  decide +kernel

end Munch
