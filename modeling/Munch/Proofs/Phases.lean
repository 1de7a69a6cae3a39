import Munch.Proofs.Client
import Munch.Proofs.Tiling

/-!
# The phases of a scan

A step dispatches one match and leaves the lexer between two matches, or it ends the scan. A scan
that has ended stays so until a source is attached, and gives the same answer again and again.

* `Host.Requests h`: the actions and handlers of the host `h` make requests, and do not scan.
* `Calls lx es lx'`: calls from outside lead from `lx` to `lx'`, and all of them return. They may be
  scans whose actions and handlers make requests.

Results:
* `Request.all_phase`: requests leave the phase as it is, unless they attach a source.
* `Calls.phase_kept`: calls that attach no source leave a scan that has ended as it is.
* **`phase_machine`**: what each step answers is what the phase says.
-/

namespace Munch

open Lexer

variable {α η υ ω : Type}

/-! ## Requests in the middle of a dispatch -/

namespace Request

/-- The lexer after requests. -/
def all (rs : List (Request α η)) (lx : Lexer α η) : Lexer α η :=
  rs.foldl (fun lx r => (r.on lx).2) lx

/-- The events of requests. -/
def events (rs : List (Request α η)) : List (Event α υ) :=
  rs.filterMap fun r => r.source?.map .attached

/-- **Requests leave the phase as it is, unless they attach a source.** -/
theorem all_phase (rs : List (Request α η)) (lx : Lexer α η) :
    (all rs lx).phase = if (events (υ := υ) rs).any Event.attaches then .idle else lx.phase := by
  induction rs generalizing lx with
  | nil => rfl
  | cons r rs ih =>
    show (all rs (r.on lx).2).phase = _
    rw [ih, on_phase]
    cases hs : r.source? with
    | none => simp [events, hs]
    | some s => simp [events, hs, Event.attaches]

/-- Requests are a run. -/
theorem run_all (rs : List (Request α η)) {lx₀ lx : Lexer α η} {es : List (Event α υ)}
    (run : Run lx₀ es lx) : Run lx₀ (es ++ events rs) (all rs lx) := by
  induction rs generalizing lx es with
  | nil => rwa [events, List.filterMap_nil, List.append_nil]
  | cons r rs ih =>
    have hr : Run lx₀ (es ++ events [r]) (r.on lx).2 := by
      cases r with
      | setting s => exact (List.append_nil es).symm ▸ run.register s
      | begin state =>
        rw [show events [Request.begin state] = ([] : List (Event α υ)) from rfl, List.append_nil]
        show Run lx₀ es (lx.orSame (lx.begin state))
        cases hb : lx.begin state with
        | error e => exact run
        | ok lx' => exact run.begin state hb
      | attach input =>
        cases input with
        | unusable what => exact (List.append_nil es).symm ▸ run
        | source s => exact run.attach s
    have hrest := ih hr
    rw [List.append_assoc] at hrest
    rw [show events (r :: rs) = events [r] ++ (events rs : List (Event α υ)) from
      List.filterMap_append (l := [r])]
    exact hrest

end Request

/-- The requests that the actions and handlers of a host make; they do nothing else to the lexer. -/
structure Host.Requests (h : Host α η υ ω) where
  act : α → Context → Lexer α η → ω → List (Request α η)
  deliver : η → Token υ → Lexer α η → ω → List (Request α η)
  act_eq : ∀ a c lx world, (h.act a c lx world).2.1 = Request.all (act a c lx world) lx
  deliver_eq : ∀ handler t lx world,
    (h.deliver handler t lx world).1 = Request.all (deliver handler t lx world) lx

namespace Host.Requests

variable {h : Host α η υ ω}

/-- The events of the requests. -/
def chronicle (k : h.Requests) : Chronicle α η υ ω where
  act a c lx world := Request.events (k.act a c lx world)
  deliver handler t lx world := Request.events (k.deliver handler t lx world)

theorem calls (k : h.Requests) : h.Calls k.chronicle where
  act a c lx world := by
    rw [k.act_eq]
    exact Request.run_all _ (.nil lx)
  deliver handler t lx world := by
    rw [k.deliver_eq]
    exact Request.run_all _ (.nil lx)

/-- What happens while an action runs: requests, and perhaps a token is delivered. -/
theorem runAction (k : h.Requests) (action : Option α) (lx : Lexer α η) (world : ω) :
    ∃ rs, (lx.runAction h action world).2.1 = Request.all rs lx ∧
      (lx.actionEvents h k.chronicle action world).any Event.attaches =
        (Request.events (υ := υ) rs).any Event.attaches ∧
      dispatches (lx.actionEvents h k.chronicle action world) = [] := by
  have hdispatches (rs : List (Request α η)) : dispatches (Request.events (υ := υ) rs) = [] := by
    rw [dispatches, Request.events, List.filterMap_filterMap, List.filterMap_eq_nil_iff]
    intro r _
    cases r.source? <;> rfl
  unfold Lexer.runAction Lexer.actionEvents
  cases action with
  | none => exact ⟨[], rfl, rfl, rfl⟩
  | some a =>
    have hact := k.act_eq a lx.context lx world
    rcases hacted : h.act a lx.context lx world with ⟨reply, after, world'⟩
    rw [hacted] at hact
    simp only [hacted] at hact ⊢
    cases after.effect lx.context reply with
    | nothing | failed =>
      simp only [List.append_nil]
      exact ⟨_, hact, rfl, hdispatches _⟩
    | token handler t =>
      simp only
      refine ⟨k.act a lx.context lx world ++ k.deliver handler t after world', ?_, ?_, ?_⟩
      · rw [k.deliver_eq, hact, Request.all, Request.all, Request.all, List.foldl_append]
      · simp [Request.events, chronicle, Event.attaches]
      · rw [dispatches_append, ← List.singleton_append, dispatches_append]
        exact List.append_eq_nil_iff.mpr ⟨hdispatches _, hdispatches _⟩

/-- **A dispatch runs one action.** It leaves the scan between two matches, or at its start if a
source was attached, or failed with the error it answers. -/
theorem step_take (k : h.Requests) (world : ω) {lx lx' : Lexer α η} {t : Taker α} {n : Nat}
    {w : Window} (haim : lx.aim = (.take t n w, lx')) (hkeeps : w.keeps n = true) :
    (∃ c, dispatches (lx.stepEvents h k.chronicle world) = [(t, c)]) ∧
      (((lx.step h world).1 = .more ∧ (lx.step h world).2.1.phase =
          if (lx.stepEvents h k.chronicle world).any Event.attaches then .idle else .matching) ∨
        ∃ e, (lx.step h world).1 = .failed e ∧ (lx.step h world).2.1.phase = .failed e) := by
  obtain ⟨rs, hacted, hattaches, hdispatches⟩ :=
    k.runAction t.action ({ lx' with phase := .dispatching }.consumed n w) world
  have hevents : lx.stepEvents h k.chronicle world =
      .dispatched t ({ lx' with phase := .dispatching }.consumed n w).context ::
        (({ lx' with phase := .dispatching }.consumed n w).actionEvents h k.chronicle
          t.action world ++
          [.returned]) := by
    unfold Lexer.stepEvents Lexer.dispatchEvents
    simp only [haim, hkeeps, Bool.not_true, Bool.false_eq_true, if_false, List.cons_append]
  have hany : (lx.stepEvents h k.chronicle world).any Event.attaches =
      (Request.events (υ := υ) rs).any Event.attaches := by
    rw [hevents, List.any_cons, List.any_append, hattaches]
    simp [Event.attaches]
  rw [hany]
  refine ⟨⟨({ lx' with phase := .dispatching }.consumed n w).context, ?_⟩, ?_⟩
  · rw [hevents, ← List.singleton_append, dispatches_append, dispatches_append, hdispatches]
    rfl
  · have hphase := Request.all_phase (υ := υ) rs ({ lx' with phase := .dispatching }.consumed n w)
    rw [Lexer.step_take h world haim hkeeps rfl, hacted]
    unfold Lexer.concluded
    cases (({ lx' with phase := .dispatching }.consumed n w).runAction h t.action world).1 with
    | some e => exact .inr ⟨e, rfl, rfl⟩
    | none =>
      refine .inl ⟨rfl, ?_⟩
      cases hsome : (Request.events (υ := υ) rs).any Event.attaches with
      | true =>
        have hidle : (Request.all rs ({ lx' with phase := .dispatching }.consumed n w)).phase =
            .idle := by
          rw [hphase, hsome, if_pos rfl]
        simp only [hidle, reduceCtorEq, if_false, if_true]
      | false =>
        have hrunning : (Request.all rs ({ lx' with phase := .dispatching }.consumed n w)).phase =
            .dispatching := by
          rw [hphase, hsome]
          rfl
        simp only [hrunning, if_true, Bool.false_eq_true, if_false]

end Host.Requests

/-! ## Calls from outside -/

/-- Calls that all return lead from one lexer to another, with the events between them. -/
inductive Calls : Lexer α η → List (Event α υ) → Lexer α η → Prop
  | nil (lx : Lexer α η) : Calls lx [] lx
  | request {lx₀ lx : Lexer α η} {es : List (Event α υ)} (calls : Calls lx₀ es lx)
      (r : Request α η) : Calls lx₀ (es ++ Request.events [r]) (r.on lx).2
  | interrupt {lx₀ lx : Lexer α η} {es : List (Event α υ)} (calls : Calls lx₀ es lx) (e : Error)
      (hended : lx.ended = false) : Calls lx₀ es (lx.fail e)
  | note {lx₀ lx : Lexer α η} {es : List (Event α υ)} (calls : Calls lx₀ es lx) (level : Level)
      (n : Notice) : Calls lx₀ es (lx.note level n)
  | step {lx₀ lx : Lexer α η} {es : List (Event α υ)} {ω : Type} (calls : Calls lx₀ es lx)
      (h : Host α η υ ω) (k : h.Requests) (world : ω) (hreturns : (lx.step h world).1 ≠ .broken) :
      Calls lx₀ (es ++ lx.stepEvents h k.chronicle world) (lx.step h world).2.1

theorem Calls.run {lx₀ lx : Lexer α η} {es : List (Event α υ)} (calls : Calls lx₀ es lx) :
    Run lx₀ es lx := by
  induction calls with
  | nil => exact .nil _
  | request _ r ih => exact Request.run_all [r] ih
  | interrupt _ e hended ih => exact ih.interrupt e hended
  | note _ level n ih => exact ih.note level n
  | step _ h k world _ ih => exact ih.step h k.chronicle world k.calls.act k.calls.deliver

/-- What a step from outside comes to. -/
theorem Host.Requests.step_cases {h : Host α η υ ω} (k : h.Requests) (world : ω) {lx : Lexer α η}
    (hp : lx.phase ≠ .dispatching) (hreturns : (lx.step h world).1 ≠ .broken) :
    ((lx.step h world).1 = .more ∧
      (∃ t c, dispatches (lx.stepEvents h k.chronicle world) = [(t, c)]) ∧
        (lx.step h world).2.1.phase =
          if (lx.stepEvents h k.chronicle world).any Event.attaches then .idle else .matching) ∨
      ((lx.step h world).1 = .done ∧ lx.aim = (.stop .done, (lx.step h world).2.1) ∧
        (lx.step h world).2.1.phase = .exhausted) ∨
      (∃ e, (lx.step h world).1 = .failed e ∧ (lx.step h world).2.1.phase = .failed e) ∨
      (∃ e, (lx.step h world).1 = .failed e ∧ (lx.step h world).2.1 = lx ∧ lx.window = none) := by
  rcases haim : lx.aim with ⟨_ | p, lx'⟩
  next t n w =>
    cases hkeeps : w.keeps n with
    | false =>
      rw [step_broken h world haim hkeeps] at hreturns
      exact absurd rfl hreturns
    | true =>
      obtain ⟨⟨c, hc⟩, ⟨hmore, hphase⟩ | hfailed⟩ := k.step_take world haim hkeeps
      · exact .inl ⟨hmore, ⟨t, c, hc⟩, hphase⟩
      · exact .inr (.inr (.inl hfailed))
  · rw [step_stop h world haim] at hreturns ⊢
    obtain ⟨rfl, hphase⟩ | hfailed | ⟨e, he, hsame, hd | hw⟩ | rfl := aim_stop haim
    · exact .inr (.inl ⟨rfl, rfl, hphase⟩)
    · exact .inr (.inr (.inl hfailed))
    · exact absurd hd hp
    · exact .inr (.inr (.inr ⟨e, he, hsame, hw⟩))
    · exact absurd rfl hreturns

namespace Calls

variable {lx₀ lx : Lexer α η} {es : List (Event α υ)}

/-- Between calls no action is running. -/
theorem phase_ne_dispatching (calls : Calls lx₀ es lx) (h : lx₀.phase ≠ .dispatching) :
    lx.phase ≠ .dispatching := by
  induction calls with
  | nil => exact h
  | request _ r ih =>
    rw [Request.on_phase]
    split
    · rintro ⟨⟩
    · exact ih
  | interrupt _ e _ _ => rintro ⟨⟩
  | note _ _ _ ih => exact ih
  | step _ host k world hreturns ih =>
    obtain ⟨-, -, hphase⟩ | ⟨-, -, hphase⟩ | ⟨e, -, hphase⟩ | ⟨e, -, hsame, -⟩ :=
      k.step_cases world (ih) hreturns
    · rw [hphase]
      split <;> rintro ⟨⟩
    · rw [hphase]
      rintro ⟨⟩
    · rw [hphase]
      rintro ⟨⟩
    · rw [hsame]
      exact ih

end Calls

/-- A scan that has ended is not touched by a step, and no action is run. -/
theorem Lexer.step_ended {lx : Lexer α η} (h : Host α η υ ω) (world : ω) :
    (lx.phase = .exhausted → lx.step h world = (.done, lx, world)) ∧
      ∀ e, lx.phase = .failed e → lx.step h world = (.failed e, lx, world) :=
  ⟨fun hp => step_stop h world (aim_exhausted hp), fun _ hp => step_stop h world (aim_failed hp)⟩

theorem Lexer.ended_iff {lx : Lexer α η} :
    lx.ended = true ↔ lx.phase = .exhausted ∨ ∃ e, lx.phase = .failed e := by
  unfold Lexer.ended
  cases lx.phase <;> simp

/-- **Calls that attach no source leave a scan that has ended as it is.** -/
theorem Calls.phase_kept {lx₀ lx : Lexer α η} {es : List (Event α υ)} (calls : Calls lx₀ es lx)
    (hended : lx₀.ended = true) (hnone : ∀ e ∈ es, e.attaches = false) : lx.phase = lx₀.phase := by
  induction calls with
  | nil => rfl
  | @request lx es _ r ih =>
    have hkept := ih fun e he => hnone e (List.mem_append_left _ he)
    rw [Request.on_phase]
    cases hs : r.source? with
    | none => exact hkept
    | some s =>
      have hattached := hnone (.attached s) (List.mem_append_right _ (by simp [Request.events, hs]))
      cases hattached
  | interrupt _ e hrunning ih =>
    have hkept := ih hnone
    unfold Lexer.ended at hended hrunning
    rw [hkept, hended] at hrunning
    cases hrunning
  | note _ _ _ ih => exact ih hnone
  | @step lx es ω _ h k world _ ih =>
    have hkept := ih fun e he => hnone e (List.mem_append_left _ he)
    rw [ended_iff, ← hkept] at hended
    obtain hp | ⟨e, hp⟩ := hended
    · rw [(step_ended h world).1 hp]
      exact hkept
    · rw [(step_ended h world).2 e hp]
      exact hkept

/-- A scan that is done has consumed the source attached last. -/
theorem Lexer.Placed.consumed_of_exhausted {es : List (Event α υ)} {lx : Lexer α η}
    (h : Placed es lx) (hp : lx.phase = .exhausted) :
    ∃ s w, lastSource es = some s ∧ lx.window = some w ∧ w.offset = s.pending.length := by
  unfold Placed at h
  split at h
  · exact absurd hp h.2
  next s seg hs =>
    obtain ⟨w, hloc⟩ := h
    exact ⟨s, w, by rw [lastSource, hs]; rfl, hloc.window, hloc.phase hp⟩

/-- There is no window if there was never a source. -/
theorem Lexer.Placed.lastSource_of_window {es : List (Event α υ)} {lx : Lexer α η}
    (h : Placed es lx) (hw : lx.window = none) : lastSource es = none := by
  unfold Placed at h
  split at h
  next hs =>
    rw [lastSource, hs]
    rfl
  next s seg hs =>
    obtain ⟨w, hloc⟩ := h
    cases hw.symm.trans hloc.window

/-- The scan of a lexer that has ended answers at once, whatever interrupts it. -/
theorem Lexer.lexUnless_ended {lx : Lexer α η} (h : Host α η υ ω) (interrupted : ω → Option Error)
    (limit : Nat) (world : ω) :
    (lx.phase = .exhausted →
      lx.lexUnless h interrupted (limit + 1) world = (.finished, lx, world)) ∧
      ∀ e, lx.phase = .failed e →
        lx.lexUnless h interrupted (limit + 1) world = (.failed e, lx, world) := by
  refine ⟨fun hp => ?_, fun e hp => ?_⟩
  · rw [Lexer.lexUnless, ended_iff.mpr (.inl hp), if_pos rfl]
    simp only [(step_ended h world).1 hp]
  · rw [Lexer.lexUnless, ended_iff.mpr (.inr ⟨e, hp⟩), if_pos rfl]
    simp only [(step_ended h world).2 e hp]

/-- **The phase machine.** After any calls from outside that all return: no action is running. If a
step goes on then it dispatched one match, and the scan is at its start if a source was attached on
the way, and between two matches otherwise. If it says that the scan is done then no action was run,
whatever the host, and no rune of the source is left. If it fails then there was never a source and
the lexer is as before, or the error is kept. A scan that has ended answers every step and every
scan alike, without running anything, and only a source that is attached puts an end to that. -/
theorem phase_machine {es : List (Event α υ)} {lx : Lexer α η} (calls : Calls {} es lx) :
    lx.phase ≠ .dispatching ∧
      (∀ {ω : Type} (h : Host α η υ ω) (k : h.Requests) (world : ω),
        ((lx.step h world).1 = .more →
          (∃ t c, dispatches (lx.stepEvents h k.chronicle world) = [(t, c)]) ∧
            (lx.step h world).2.1.phase =
              if (lx.stepEvents h k.chronicle world).any Event.attaches then .idle else .matching) ∧
        ((lx.step h world).1 = .done →
          (∀ {ω' : Type} (h' : Host α η υ ω') (world' : ω'),
            lx.step h' world' = (.done, (lx.step h world).2.1, world')) ∧
            (lx.step h world).2.1.phase = .exhausted ∧
            ∃ s w, lastSource es = some s ∧ (lx.step h world).2.1.window = some w ∧
              w.offset = s.pending.length) ∧
        ∀ e, (lx.step h world).1 = .failed e →
          (lastSource es = none ∧ (lx.step h world).2.1 = lx) ∨
            (lx.step h world).2.1.phase = .failed e) ∧
      (∀ {ω : Type} (h : Host α η υ ω) (interrupted : ω → Option Error) (limit : Nat) (world : ω),
        (lx.phase = .exhausted → lx.step h world = (.done, lx, world) ∧
          lx.lexUnless h interrupted (limit + 1) world = (.finished, lx, world)) ∧
        ∀ e, lx.phase = .failed e → lx.step h world = (.failed e, lx, world) ∧
          lx.lexUnless h interrupted (limit + 1) world = (.failed e, lx, world)) ∧
      (lx.ended = true → ∀ {es' : List (Event α υ)} {lx' : Lexer α η}, Calls lx es' lx' →
        (∀ e ∈ es', e.attaches = false) → lx'.phase = lx.phase) := by
  have hidle : lx.phase ≠ .dispatching := calls.phase_ne_dispatching (by rintro ⟨⟩)
  refine ⟨hidle, ?_, ?_, fun hended _ _ more hnone => more.phase_kept hended hnone⟩
  · intro ω h k world
    have hnew : Placed ([] : List (Event α υ)) ({} : Lexer α η) := ⟨rfl, by rintro ⟨⟩⟩
    have hplaced : Placed es lx := invariant_placed.of_run calls.run hnew
    have hcases := fun hreturns => k.step_cases world hidle hreturns
    refine ⟨fun hmore => ?_, fun hdone => ?_, fun e hfailed => ?_⟩
    · obtain ⟨-, hone, hphase⟩ | ⟨hp, -⟩ | ⟨e, hp, -⟩ | ⟨e, hp, -⟩ :=
        hcases (by rw [hmore]; rintro ⟨⟩)
      · exact ⟨hone, hphase⟩
      all_goals cases hmore.symm.trans hp
    · obtain ⟨hp, -⟩ | ⟨-, haim, hphase⟩ | ⟨e, hp, -⟩ | ⟨e, hp, -⟩ :=
        hcases (by rw [hdone]; rintro ⟨⟩)
      · cases hdone.symm.trans hp
      · refine ⟨fun h' world' => step_stop h' world' haim, hphase, ?_⟩
        obtain ⟨s, w, hs, hw⟩ := (hplaced.stop haim).consumed_of_exhausted hphase
        rw [lastSource_append (stopEvents_attaches .done)] at hs
        exact ⟨s, w, hs, hw⟩
      all_goals cases hdone.symm.trans hp
    · obtain ⟨hp, -⟩ | ⟨hp, -⟩ | ⟨e', hp, hphase⟩ | ⟨e', hp, hsame, hw⟩ :=
        hcases (by rw [hfailed]; rintro ⟨⟩)
      · cases hfailed.symm.trans hp
      · cases hfailed.symm.trans hp
      · cases hfailed.symm.trans hp
        exact .inr hphase
      · exact .inl ⟨hplaced.lastSource_of_window hw, hsame⟩
  · intro ω h interrupted limit world
    exact ⟨fun hp => ⟨(step_ended h world).1 hp, (lexUnless_ended h interrupted limit world).1 hp⟩,
      fun e hp => ⟨(step_ended h world).2 e hp, (lexUnless_ended h interrupted limit world).2 e hp⟩⟩

/-- A lexer with one rule, at the start of a text. -/
def atStart : Lexer Nat Unit := ((Setting.rule "a" (some 1)).apply {}).attachSource (.ofText "ab")

/-- Actions that attach another text. -/
def restarter : Host Nat Unit Unit Unit :=
  ⟨fun _ _ lx world => ({}, lx.attachSource (.ofText "b"), world), fun _ _ lx world => (lx, world)⟩

/-- The requests of `restarter`. -/
def restarterRequests : restarter.Requests where
  act _ _ _ _ := [.attach (.source (.ofText "b"))]
  deliver _ _ _ _ := []
  act_eq _ _ _ _ := rfl
  deliver_eq _ _ _ _ := rfl

/-- The lexer after a step whose action attached another text, and a step that finds no rule for
it. -/
def mismatched : Lexer Nat Unit := ((atStart.step restarter ()).2.1.step restarter ()).2.1

set_option maxRecDepth 10000 in
theorem phase_machine_restarted :
    ((∃ t c, dispatches (atStart.stepEvents restarter restarterRequests.chronicle ()) = [(t, c)]) ∧
        (atStart.step restarter ()).2.1.phase = .idle) ∧
      mismatched.lexUnless restarter (fun _ => some .canceled) 1 () =
        (.failed (.noMatch ⟨1, "initial", 98, "b"⟩), mismatched, ()) := by
  have hattached : Calls (υ := Unit) {} [.attached (.ofText "ab")] atStart :=
    ((Calls.nil {}).request (.setting (.rule "a" (some 1)))).request
      (.attach (.source (.ofText "ab")))
  have hmore : (atStart.step restarter ()).1 = .more := by decide +kernel
  have hany : (atStart.stepEvents restarter restarterRequests.chronicle ()).any Event.attaches =
      true := by
    decide +kernel
  have hfailed : ((atStart.step restarter ()).2.1.step restarter ()).1 =
      .failed (.noMatch ⟨1, "initial", 98, "b"⟩) := by decide +kernel
  have hphase : mismatched.phase = .failed (.noMatch ⟨1, "initial", 98, "b"⟩) := by decide +kernel
  have hrestarted := hattached.step restarter restarterRequests () (by rw [hmore]; rintro ⟨⟩)
  have hmismatched := hrestarted.step restarter restarterRequests () (by rw [hfailed]; rintro ⟨⟩)
  refine ⟨?_, ?_⟩
  · have hone := ((phase_machine hattached).2.1 restarter restarterRequests ()).1 hmore
    rwa [hany] at hone
  · exact (((phase_machine hmismatched).2.2.1 restarter (fun _ => some .canceled) 0 ()).2
      _ hphase).2

end Munch
