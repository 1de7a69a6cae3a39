import Munch.Proofs.Phases

/-!
# Scans that are interrupted

Between two matches a scan asks if it is to go on. If the world says no, then the scan fails there,
with just the dispatches that came before. What happens in the middle of a dispatch is noticed when
the dispatch is over, and not at all if the dispatch ends the scan by itself.

* `Lexer.after h n`: the lexer and the world after `n` steps that all go on.
* `Lexer.OpenFor h interrupted n`: the scan is not interrupted before its first `n` dispatches.
* `Lexer.Fails e lx`: the scan has failed with `e`, and answers so until a source is attached.
* `Lexer.FailsAfter`: the scan makes the first dispatches of the scan without interruptions only,
  and fails.

Results:
* `Host.Requests.step_dispatches`: a step makes one dispatch, or does not go on.
* `Lexer.exists_dispatches`: what interrupts a scan later makes no difference for its first
  dispatches.
* `Lexer.failsAfter_interrupted`, `Lexer.failsAfter_failed`: a scan that is interrupted, and one
  whose dispatch fails.
* **`cancel_at_next_match`**: a scan that is interrupted ends at the next match boundary.
-/

namespace Munch

open Lexer

variable {α η υ ω : Type}

namespace Lexer

/-- The lexer and the world after `n` steps, if all of them go on. -/
def after (h : Host α η υ ω) : (n : Nat) → Lexer α η → ω → Option (Lexer α η × ω)
  | 0, lx, world => some (lx, world)
  | n + 1, lx, world =>
    match lx.step h world with
    | (.more, lx, world) => after h n lx world
    | _ => none

/-- The scan is not interrupted before its first `n` dispatches. -/
def OpenFor (h : Host α η υ ω) (interrupted : ω → Option Error) (n : Nat) (lx : Lexer α η)
    (world : ω) : Prop :=
  ∀ j < n, ∀ p, lx.after h j world = some p → interrupted p.2 = none

instance (h : Host α η υ ω) (interrupted : ω → Option Error) (n : Nat) (lx : Lexer α η)
    (world : ω) : Decidable (lx.OpenFor h interrupted n world) :=
  decidable_of_iff
    (∀ j < n, ((lx.after h j world).bind fun p => interrupted p.2).isNone = true) <| by
    refine forall_congr' fun j => forall_congr' fun _ => ?_
    rw [Option.isNone_iff_eq_none, Option.bind_eq_none_iff]

/-- The scan has failed with `e`, and every later step and every later scan answers so, until a
source is attached. -/
structure Fails (e : Error) (lx : Lexer α η) : Prop where
  phase : lx.phase = .failed e
  later : ∀ {υ : Type} {es : List (Event α υ)} {lx' : Lexer α η}, Calls lx es lx' →
    (∀ e ∈ es, e.attaches = false) →
    ∀ {ω : Type} (h : Host α η υ ω) (world : ω), lx'.step h world = (.failed e, lx', world) ∧
      ∀ interrupted limit, lx'.lexUnless h interrupted (limit + 1) world = (.failed e, lx', world)

theorem fails_of_phase {lx : Lexer α η} {e : Error} (hp : lx.phase = .failed e) : lx.Fails e where
  phase := hp
  later calls hnone ω h world := by
    have hkept := (calls.phase_kept (ended_iff.mpr (.inr ⟨e, hp⟩)) hnone).trans hp
    exact ⟨(step_ended h world).2 e hkept,
      fun interrupted limit => (lexUnless_ended h interrupted limit world).2 e hkept⟩

end Lexer

variable {h : Host α η υ ω} {lx lx₁ : Lexer α η} {world world₁ : ω}

/-! ## Single steps -/

/-- **A step makes one dispatch**, behind which the scan goes on, or has failed with what the step
answers. Any other step does not go on. -/
theorem Host.Requests.step_dispatches (k : h.Requests) (lx : Lexer α η) (world : ω) :
    (∃ d, dispatches (lx.stepEvents h k.chronicle world) = [d] ∧
      (((lx.step h world).1 = .more ∧ (lx.step h world).2.1.ended = false) ∨
        ∃ e, (lx.step h world).1 = .failed e ∧ (lx.step h world).2.1.phase = .failed e)) ∨
      dispatches (lx.stepEvents h k.chronicle world) = [] ∧ (lx.step h world).1 ≠ .more := by
  rcases haim : lx.aim with ⟨⟨t, n, w⟩ | q, lx'⟩
  · by_cases hkeeps : w.keeps n = true
    · obtain ⟨⟨c, hc⟩, ⟨hmore, hphase⟩ | hfailed⟩ := k.step_take world haim hkeeps
      · refine .inl ⟨(t, c), hc, .inl ⟨hmore, ?_⟩⟩
        by_cases hattaches : (lx.stepEvents h k.chronicle world).any Event.attaches = true
        · rw [if_pos hattaches] at hphase
          simp [ended, hphase]
        · rw [if_neg hattaches] at hphase
          simp [ended, hphase]
      · exact .inl ⟨(t, c), hc, .inr hfailed⟩
    · rw [Bool.not_eq_true] at hkeeps
      rw [step_broken h world haim hkeeps, stepEvents, haim]
      simp [dispatchEvents, hkeeps, dispatches]
  · rw [step_stop h world haim, stepEvents, haim]
    refine .inr ⟨by cases q <;> rfl, fun hmore => ?_⟩
    obtain rfl : q = .more := hmore
    rcases aim_stop haim with ⟨hq, -⟩ | ⟨e, hq, -⟩ | ⟨e, hq, -⟩ | hq <;> cases hq

/-- A step that goes on made one dispatch, and did not end the scan. -/
theorem Host.Requests.step_more (k : h.Requests) (hmore : lx.step h world = (.more, lx₁, world₁)) :
    (∃ d, dispatches (lx.stepEvents h k.chronicle world) = [d]) ∧ lx₁.ended = false := by
  have hstep := k.step_dispatches lx world
  rw [hmore] at hstep
  obtain ⟨d, hone, ⟨-, hended⟩ | ⟨e, hfailed, -⟩⟩ | ⟨-, hnot⟩ := hstep
  · exact ⟨⟨d, hone⟩, hended⟩
  · cases hfailed
  · exact absurd rfl hnot

/-- A dispatch that fails is what the scan fails with. -/
theorem Host.Requests.phase_of_failed (k : h.Requests) {e : Error} {d : Taker α × Context}
    (hfailed : (lx.step h world).1 = .failed e)
    (hone : dispatches (lx.stepEvents h k.chronicle world) = [d]) :
    (lx.step h world).2.1.phase = .failed e := by
  obtain ⟨-, -, ⟨hmore, -⟩ | ⟨e', hfailed', hphase⟩⟩ | ⟨hnone, -⟩ := k.step_dispatches lx world
  · cases hmore.symm.trans hfailed
  · cases hfailed'.symm.trans hfailed
    exact hphase
  · cases hnone.symm.trans hone

namespace Lexer

variable {interrupted : ω → Option Error} {n : Nat} {p : Lexer α η × ω} {e : Error}

theorem after_succ (hmore : lx.step h world = (.more, lx₁, world₁)) (n : Nat) :
    lx.after h (n + 1) world = lx₁.after h n world₁ := by
  rw [after, hmore]

/-- The first of `n + 1` steps goes on. -/
theorem step_of_after (hafter : lx.after h (n + 1) world = some p) :
    ∃ lx₁ world₁, lx.step h world = (.more, lx₁, world₁) ∧ lx₁.after h n world₁ = some p := by
  rw [after] at hafter
  split at hafter
  next lx₁ world₁ hmore => exact ⟨lx₁, world₁, hmore, hafter⟩
  · cases hafter

theorem OpenFor.here (hopen : lx.OpenFor h interrupted (n + 1) world) : interrupted world = none :=
  hopen 0 n.succ_pos (lx, world) rfl

theorem OpenFor.next (hopen : lx.OpenFor h interrupted (n + 1) world)
    (hmore : lx.step h world = (.more, lx₁, world₁)) : lx₁.OpenFor h interrupted n world₁ := by
  intro j hj p hafter
  exact hopen (j + 1) (Nat.succ_lt_succ hj) p ((after_succ hmore j).trans hafter)

/-- A scan has not ended as long as its steps go on. -/
theorem ended_of_after (k : h.Requests) (hended : lx.ended = false)
    (hafter : lx.after h n world = some p) : p.1.ended = false := by
  induction n generalizing lx world with
  | zero =>
    obtain rfl : (lx, world) = p := Option.some.inj hafter
    exact hended
  | succ n ih =>
    obtain ⟨lx₁, world₁, hmore, hafter⟩ := step_of_after hafter
    exact ih (k.step_more hmore).2 hafter

/-! ## Whole scans -/

/-- **A scan that is open for its first dispatches makes them**, and goes on where they lead. They
are the same ones whatever interrupts the scan later. -/
theorem exists_dispatches (k : h.Requests) (hafter : lx.after h n world = some p) :
    ∃ ds : List (Taker α × Context), ds.length = n ∧
      ∀ interrupted, lx.OpenFor h interrupted n world → ∀ limit,
        lx.lexUnless h interrupted (n + limit) world = p.1.lexUnless h interrupted limit p.2 ∧
          dispatches (lx.lexEvents h k.chronicle interrupted (n + limit) world) =
            ds ++ dispatches (p.1.lexEvents h k.chronicle interrupted limit p.2) := by
  induction n generalizing lx world with
  | zero =>
    obtain rfl : (lx, world) = p := Option.some.inj hafter
    refine ⟨[], rfl, fun interrupted _ limit => ?_⟩
    rw [Nat.zero_add]
    exact ⟨rfl, rfl⟩
  | succ n ih =>
    obtain ⟨lx₁, world₁, hmore, hafter⟩ := step_of_after hafter
    obtain ⟨ds, hlength, hrest⟩ := ih hafter
    obtain ⟨⟨d, hone⟩, -⟩ := k.step_more hmore
    refine ⟨d :: ds, congrArg Nat.succ hlength, fun interrupted hopen limit => ?_⟩
    obtain ⟨hlex, hevents⟩ := hrest interrupted (hopen.next hmore) limit
    rw [Nat.succ_add, lexUnless, lexEvents, hopen.here, ite_self, hmore]
    simp only
    rw [dispatches_append, hone, hevents]
    exact ⟨hlex, rfl⟩

/-- **A scan that is not interrupted** is one without interruptions. -/
theorem lexUnless_open (k : Chronicle α η υ ω) {limit : Nat}
    (hopen : lx.OpenFor h interrupted limit world) :
    lx.lexUnless h interrupted limit world = lx.lex h limit world ∧
      lx.lexEvents h k interrupted limit world = lx.lexEvents h k (fun _ => none) limit world := by
  induction limit generalizing lx world with
  | zero => exact ⟨rfl, rfl⟩
  | succ limit ih =>
    rw [lex, lexUnless, lexUnless, lexEvents, lexEvents, hopen.here, ite_self]
    simp only
    rcases hstep : lx.step h world with ⟨_ | _ | _ | _, lx₁, world₁⟩
    · obtain ⟨hlex, hevents⟩ := ih (hopen.next hstep)
      exact ⟨hlex, congrArg _ hevents⟩
    · exact ⟨rfl, rfl⟩
    · exact ⟨rfl, rfl⟩
    · exact ⟨rfl, rfl⟩

/-- Of the scan without interruptions the scan makes the first `n` dispatches only, then it fails
with `e`, and stays failed. -/
structure FailsAfter (k : h.Requests) (interrupted : ω → Option Error) (lx : Lexer α η) (world : ω)
    (limit n : Nat) (e : Error) (result : Lexer α η × ω) : Prop where
  outcome : lx.lexUnless h interrupted limit world = (.failed e, result)
  stays : result.1.Fails e
  length : (dispatches (lx.lexEvents h k.chronicle interrupted limit world)).length = n
  first : ∀ limit', n ≤ limit' → dispatches (lx.lexEvents h k.chronicle interrupted limit world) =
    (dispatches (lx.lexEvents h k.chronicle (fun _ => none) limit' world)).take n

theorem openFor_none (lx : Lexer α η) (n : Nat) (world : ω) :
    lx.OpenFor h (fun _ => none) n world :=
  fun _ _ _ _ => rfl

/-- **A scan that is interrupted after `n` dispatches** fails there. -/
theorem failsAfter_interrupted (k : h.Requests) (hended : lx.ended = false)
    (hafter : lx.after h n world = some p) (hopen : lx.OpenFor h interrupted n world)
    (hdone : interrupted p.2 = some e) {limit : Nat} (hlt : n < limit) :
    FailsAfter k interrupted lx world limit n e (p.1.fail e, p.2) := by
  obtain ⟨ds, hlength, hrest⟩ := exists_dispatches k hafter
  obtain ⟨limit, rfl⟩ := Nat.exists_eq_add_of_lt hlt
  obtain ⟨hlex, hevents⟩ := hrest interrupted hopen (limit + 1)
  have hstops : p.1.lexUnless h interrupted (limit + 1) p.2 = (.failed e, p.1.fail e, p.2) ∧
      p.1.lexEvents h k.chronicle interrupted (limit + 1) p.2 = [] := by
    rw [lexUnless, lexEvents, ended_of_after k hended hafter]
    simp [hdone]
  rw [hstops.2, show dispatches ([] : List (Event α υ)) = [] from rfl, List.append_nil] at hevents
  refine ⟨hlex.trans hstops.1, fails_of_phase rfl, ?_, fun limit' hle => ?_⟩
  · rw [Nat.add_assoc, hevents, hlength]
  · obtain ⟨limit', rfl⟩ := Nat.exists_eq_add_of_le hle
    rw [Nat.add_assoc, hevents, (hrest _ (openFor_none lx n world) limit').2, ← hlength,
      List.take_left]

/-- **A scan whose dispatch fails** does so, whatever interrupts it later. -/
theorem failsAfter_failed (k : h.Requests) (hafter : lx.after h n world = some p)
    (hopen : lx.OpenFor h interrupted n world) (hgoes : interrupted p.2 = none)
    {d : Taker α × Context} (hfailed : (p.1.step h p.2).1 = .failed e)
    (hone : dispatches (p.1.stepEvents h k.chronicle p.2) = [d]) {limit : Nat} (hlt : n < limit) :
    FailsAfter k interrupted lx world limit (n + 1) e (p.1.step h p.2).2 := by
  obtain ⟨ds, hlength, hrest⟩ := exists_dispatches k hafter
  -- the scan stops with this dispatch, interrupted or not
  have hlast (interrupted : ω → Option Error) (hgoes : interrupted p.2 = none) (limit : Nat) :
      p.1.lexUnless h interrupted (limit + 1) p.2 = (.failed e, (p.1.step h p.2).2) ∧
        dispatches (p.1.lexEvents h k.chronicle interrupted (limit + 1) p.2) = [d] := by
    rw [lexUnless, lexEvents, hgoes, ite_self]
    simp only
    rcases hstep : p.1.step h p.2 with ⟨progress, result⟩
    obtain rfl : progress = .failed e := by rw [← hfailed, hstep]
    rw [List.append_nil]
    exact ⟨rfl, hone⟩
  have hall (interrupted : ω → Option Error) (hopen : lx.OpenFor h interrupted n world)
      (hgoes : interrupted p.2 = none) (limit : Nat) (hlt : n < limit) :
      lx.lexUnless h interrupted limit world = (.failed e, (p.1.step h p.2).2) ∧
        dispatches (lx.lexEvents h k.chronicle interrupted limit world) = ds ++ [d] := by
    obtain ⟨limit, rfl⟩ := Nat.exists_eq_add_of_lt hlt
    obtain ⟨hlex, hevents⟩ := hrest interrupted hopen (limit + 1)
    obtain ⟨hstops, hstopped⟩ := hlast interrupted hgoes limit
    rw [hstopped] at hevents
    exact ⟨hlex.trans hstops, hevents⟩
  obtain ⟨hlex, hevents⟩ := hall interrupted hopen hgoes limit hlt
  have htotal : (ds ++ [d]).length = n + 1 := by
    rw [List.length_append, hlength, List.length_singleton]
  refine ⟨hlex, fails_of_phase (k.phase_of_failed hfailed hone), ?_, fun limit' hle => ?_⟩
  · rw [hevents, htotal]
  · rw [hevents, (hall _ (openFor_none lx n world) rfl limit' hle).2, ← htotal, List.take_length]

end Lexer

/-- **A scan that is interrupted ends at the next match boundary.** Actions make requests only, no
steps and no scans, and the scan of `lx` has not ended. Its first `n` dispatches lead to `lx'` and
`world'`, and the world lets the scan go on before each of them.

If the world does not let it go on after them, then the scan makes no other dispatch, and fails with
the interruption. If it does, and the next dispatch fails, then the scan fails with the error of
that dispatch, whatever the world says then. It stays failed, in both cases. A scan that is never
interrupted is one without interruptions. -/
theorem cancel_at_next_match (hended : lx.ended = false) (k : h.Requests)
    (interrupted : ω → Option Error) (world : ω) :
    (∀ n lx' world', lx.after h n world = some (lx', world') → lx.OpenFor h interrupted n world →
      (∀ e, interrupted world' = some e → ∀ limit, n < limit →
        FailsAfter k interrupted lx world limit n e (lx'.fail e, world')) ∧
      ∀ e d, interrupted world' = none → (lx'.step h world').1 = .failed e →
        dispatches (lx'.stepEvents h k.chronicle world') = [d] → ∀ limit, n < limit →
          FailsAfter k interrupted lx world limit (n + 1) e (lx'.step h world').2) ∧
    ∀ limit, lx.OpenFor h interrupted limit world →
      lx.lexUnless h interrupted limit world = lx.lex h limit world ∧
        lx.lexEvents h k.chronicle interrupted limit world =
          lx.lexEvents h k.chronicle (fun _ => none) limit world := by
  refine ⟨fun n lx' world' hafter hopen => ⟨fun e hdone limit hlt => ?_,
    fun e d hgoes hfailed hone limit hlt => ?_⟩,
    fun limit hopen => lexUnless_open k.chronicle hopen⟩
  · exact failsAfter_interrupted k hended hafter hopen hdone hlt
  · exact failsAfter_failed k hafter hopen hgoes hfailed hone hlt

/-- A lexer at the start of three matches. -/
def threefold : Lexer Nat Unit :=
  (Lexer.configured [.rule "a" (some 1)]).attachSource (.ofText "aaa")

/-- Actions that count themselves; the one with the number `failing` fails. -/
def counting (failing : Nat) : Host Nat Unit Unit Nat :=
  ⟨fun _ _ lx n => ({ signal := if n = failing then .fail else .skip }, lx, n + 1),
    fun _ _ lx n => (lx, n)⟩

/-- They make no requests. -/
def countingRequests (failing : Nat) : (counting failing).Requests where
  act _ _ _ _ := []
  deliver _ _ _ _ := []
  act_eq _ _ _ _ := rfl
  deliver_eq _ _ _ _ := rfl

/-- The scan is to end after two actions. -/
def secondCancels (n : Nat) : Option Error := if 2 ≤ n then some .canceled else none

set_option maxRecDepth 10000 in
theorem cancel_at_next_match_counting :
    (∃ lx', FailsAfter (countingRequests 7) secondCancels threefold 0 4 2 .canceled (lx', 2) ∧
        ((threefold.lex (counting 7) 4 0).1, (threefold.lex (counting 7) 4 0).2.2) =
          (.finished, 3)) ∧
      ∃ result, FailsAfter (countingRequests 1) secondCancels threefold 0 4 2
        (.actionFailed 1 "a" .noReason) result ∧
        secondCancels result.2 = some .canceled := by
  have hended : threefold.ended = false := by decide +kernel
  constructor
  · have hworld : (threefold.after (counting 7) 2 0).map (·.2) = some 2 := by decide +kernel
    obtain ⟨⟨lx', n⟩, hafter, rfl⟩ := Option.map_eq_some_iff.mp hworld
    obtain ⟨hcut, -⟩ := cancel_at_next_match hended (countingRequests 7) secondCancels 0
    refine ⟨lx'.fail .canceled, ?_, by decide +kernel⟩
    exact (hcut 2 lx' 2 hafter (by decide +kernel)).1 .canceled rfl 4 (by decide)
  · have hsecond : (threefold.after (counting 1) 1 0).map (fun p =>
        (p.2, (p.1.step (counting 1) p.2).1, (p.1.step (counting 1) p.2).2.2,
          (dispatches (p.1.stepEvents (counting 1) (countingRequests 1).chronicle p.2)).length)) =
        some (1, .failed (.actionFailed 1 "a" .noReason), 2, 1) := by decide +kernel
    obtain ⟨⟨lx', n⟩, hafter, hseen⟩ := Option.map_eq_some_iff.mp hsecond
    simp only [Prod.mk.injEq] at hseen
    obtain ⟨rfl, hfailed, hworld, hlength⟩ := hseen
    obtain ⟨d, hone⟩ := List.length_eq_one_iff.mp hlength
    obtain ⟨hcut, -⟩ := cancel_at_next_match hended (countingRequests 1) secondCancels 0
    refine ⟨_, (hcut 1 lx' 1 hafter (by decide +kernel)).2 _ d rfl hfailed hone 4 (by decide), ?_⟩
    rw [hworld]
    rfl

end Munch
