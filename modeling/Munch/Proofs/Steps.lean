import Munch.Proofs.Searching

/-!
# Steps

A step looks for a match, and dispatches it. What it aims at says everything: a match to dispatch,
or why there is none.

Results:
* `Lexer.looks_aim`: looking for a match comes to no more than `Looks` allows.
* `Lexer.decideOn_take_pos`: a match that is dispatched has a rune at least, whatever the search
  reported.
* `Lexer.aim_take`, `Lexer.aim_done`, `Lexer.aim_stop`: when a step dispatches, when it finds the
  input consumed, and what it comes to without a dispatch.
* `Lexer.step_take`, `Lexer.step_stop`: a step by what it aims at.
* `Lexer.lex_more`, `Lexer.lex_stop`: a scan goes on behind a step that dispatches, and ends with
  any other.
-/

namespace Munch

variable {α η υ : Type}

namespace Lexer

/-! ## Aims -/

theorem decideOn_found {lx : Lexer α η} {state : Text} {r : Rule α} {n : Nat} {w : Window}
    (hn : 0 < n) (hf : w.failure? = none) :
    lx.decideOn state (.found r n) w = (.take (.rule r) n w, lx) := by
  obtain ⟨n, rfl⟩ := Nat.exists_eq_add_of_lt hn
  simp only [decideOn, hf, Nat.zero_add]

/-- A match without runes counts for none. -/
theorem decideOn_empty (lx : Lexer α η) (state : Text) (r : Rule α) (w : Window) :
    lx.decideOn state (.found r 0) w = lx.decideOn state .nothing w := rfl

theorem decideOn_nothing {lx : Lexer α η} {state : Text} {w : Window} (hf : w.failure? = none) :
    lx.decideOn state .nothing w =
      match lx.rules.defaultFor state with
      | some action => (.take (.default action) 1 w, lx)
      | none => (lx.see w (w.lookahead 16).2).refuse
          ((lx.see w (w.lookahead 16).2).mismatch (w.lookahead 16).1) := by
  unfold decideOn
  cases lx.rules.defaultFor state with
  | none => simp only [hf]
  | some action => simp only [hf]

/-- A match is dispatched that was found, or the default action takes one rune. -/
theorem decideOn_take {lx lx' : Lexer α η} {state : Text} {found : Search α} {w w' : Window}
    {t : Taker α} {n : Nat} (h : lx.decideOn state found w = (.take t n w', lx')) :
    w' = w ∧ lx' = lx ∧ ((∃ r, found = .found r n ∧ t = .rule r) ∨
      (∃ action, lx.rules.defaultFor state = some action ∧ t = .default action ∧ n = 1)) := by
  unfold decideOn at h
  split at h
  · cases h
  · cases h
  · split at h
    · cases h
    · split at h
      next r n' _ _ =>
        cases h
        exact ⟨rfl, rfl, .inl ⟨r, rfl, rfl⟩⟩
      · split at h
        next action haction =>
          cases h
          exact ⟨rfl, rfl, .inr ⟨action, haction, rfl, rfl⟩⟩
        · cases h

/-- **A match has a rune at least**, whatever the search reported. -/
theorem decideOn_take_pos {lx lx' : Lexer α η} {state : Text} {found : Search α} {w w' : Window}
    {t : Taker α} {n : Nat} (h : lx.decideOn state found w = (.take t n w', lx')) : 0 < n := by
  obtain ⟨-, -, ⟨r, rfl, -⟩ | ⟨-, -, -, rfl⟩⟩ := decideOn_take h
  · cases n with
    | zero =>
      -- then the default action takes one rune
      obtain ⟨-, -, ⟨r', hnone, -⟩ | ⟨-, -, -, hone⟩⟩ :=
        decideOn_take ((decideOn_empty lx state r w).symm.trans h)
      · cases hnone
      · cases hone
    | succ n => exact n.succ_pos
  · exact Nat.one_pos

/-- A scan that has more input ends with an error, unless the matcher breaks down. -/
theorem decideOn_stop {lx lx' : Lexer α η} {state : Text} {found : Search α} {w : Window}
    {p : Progress} (h : lx.decideOn state found w = (.stop p, lx')) :
    (p = .broken ∧ lx'.phase = lx.phase) ∨ ∃ e, p = .failed e ∧ lx'.phase = .failed e := by
  unfold decideOn at h
  split at h
  next e =>
    cases h
    exact .inr ⟨e, rfl, rfl⟩
  · cases h
    exact .inl ⟨rfl, rfl⟩
  · split at h
    · cases h
      exact .inr ⟨_, rfl, rfl⟩
    · split at h
      · cases h
      · split at h
        · cases h
        · cases h
          exact .inr ⟨_, rfl, rfl⟩

theorem looks_decideOn {lx : Lexer α η} {w : Window} (hw : lx.window = some w) (state : Text)
    (found : Search α) : Looks lx (lx.decideOn state found w).2 := by
  unfold decideOn
  split
  · exact Looks.refl.fail _
  · exact .refl
  · split
    · exact Looks.refl.fail _
    · split
      · exact .refl
      · split
        · exact .refl
        · exact (Looks.refl.see hw (Window.reads_lookahead w 16)).fail _

/-- A step looks for a match only between two matches, in the window of the scan. -/
theorem aim_cases (lx : Lexer α η) :
    (∃ p, lx.aim = (.stop p, lx) ∧ (p = .done ↔ lx.phase = .exhausted)) ∨
      ∃ w, lx.window = some w ∧ (lx.phase = .idle ∨ lx.phase = .matching) ∧
        lx.aim = aimIn w { lx with phase := .matching } := by
  unfold aim
  split
  next hp => exact .inl ⟨.done, rfl, by simp [hp]⟩
  next e hp => exact .inl ⟨.failed e, rfl, by simp [hp]⟩
  next hp => exact .inl ⟨.failed .reentrant, rfl, by simp [hp]⟩
  next _ hexhausted _ _ => exact .inl ⟨_, rfl, by simpa using hexhausted⟩
  next w hw hexhausted hfailed hdispatching =>
    refine .inr ⟨w, hw, ?_, rfl⟩
    cases hp : lx.phase with
    | idle => exact .inl rfl
    | matching => exact .inr rfl
    | dispatching => exact absurd hp hdispatching
    | exhausted => exact absurd hp hexhausted
    | failed e => exact absurd hp (hfailed e)

theorem aim_exhausted {lx : Lexer α η} (hp : lx.phase = .exhausted) :
    lx.aim = (.stop .done, lx) := by
  rw [aim, hp]

theorem aim_failed {lx : Lexer α η} {e : Error} (hp : lx.phase = .failed e) :
    lx.aim = (.stop (.failed e), lx) := by
  rw [aim, hp]

theorem aim_dispatching {lx : Lexer α η} (hp : lx.phase = .dispatching) :
    lx.aim = (.stop (.failed .reentrant), lx) := by
  rw [aim, hp]

theorem aim_unattached {lx : Lexer α η} (hp : lx.phase = .idle ∨ lx.phase = .matching)
    (hw : lx.window = none) : lx.aim = (.stop (.failed (.notASource "<nil>")), lx) := by
  unfold aim
  obtain hp | hp := hp <;> simp only [hp, hw]

theorem aim_attached {lx : Lexer α η} {w : Window} (hp : lx.phase = .idle ∨ lx.phase = .matching)
    (hw : lx.window = some w) : lx.aim = aimIn w { lx with phase := .matching } := by
  unfold aim
  obtain hp | hp := hp <;> simp only [hp, hw]

/-- What looking for a match in the window `w` starts with. -/
theorem looks_peek {lx : Lexer α η} {w : Window} (hw : lx.window = some w) :
    Looks lx (lx.see w w.peek.2) := Looks.refl.see hw (Window.reads_peek w)

theorem looks_aimIn {lx : Lexer α η} {w : Window} (hw : lx.window = some w) {R : List Rune}
    {stop : Stop} (ho : w.Over R stop) : Looks lx (lx.aimIn w).2 := by
  have hpeek := looks_peek hw
  unfold aimIn
  simp only
  split
  · split
    · exact hpeek.fail _
    · exact (hpeek.phase _).note _ _
  · have hsearch := searched_search (see_window lx w w.peek.2) ((Window.reads_peek w).onto ho)
    exact (hpeek.trans hsearch.looks).trans (looks_decideOn hsearch.window _ _)

/-- **Looking for a match comes to no more than that.** -/
theorem looks_aim {lx : Lexer α η} (ho : ∀ w, lx.window = some w → ∃ R stop, w.Over R stop) :
    Looks lx lx.aim.2 := by
  obtain ⟨p, haim, -⟩ | ⟨w, hw, -, haim⟩ := aim_cases lx
  · rw [haim]
    exact .refl
  · obtain ⟨R, stop, hover⟩ := ho w hw
    rw [haim]
    exact (Looks.refl.phase .matching).trans (looks_aimIn hw hover)

theorem looks_of_aim {lx lx' : Lexer α η} {aim : Aim α}
    (ho : ∀ w, lx.window = some w → ∃ R stop, w.Over R stop) (h : lx.aim = (aim, lx')) :
    Looks lx lx' := by
  have hlooks := looks_aim ho
  rwa [h] at hlooks

/-- **A step dispatches** between two matches, and at least one rune. -/
theorem aim_take {lx lx' : Lexer α η} {t : Taker α} {n : Nat} {w : Window}
    (ho : ∀ w, lx.window = some w → ∃ R stop, w.Over R stop) (h : lx.aim = (.take t n w, lx')) :
    lx'.window = some w ∧ lx'.phase = .matching ∧ (lx.phase = .idle ∨ lx.phase = .matching) ∧
      0 < n := by
  obtain ⟨p, haim, -⟩ | ⟨w₀, hw, hphase, haim⟩ := aim_cases lx
  · rw [haim] at h
    cases h
  · obtain ⟨R, stop, hover⟩ := ho w₀ hw
    rw [haim] at h
    unfold aimIn at h
    simp only at h
    split at h
    · split at h
      · cases h
      · cases h
    · have hsearch := searched_search (see_window { lx with phase := .matching } w₀ w₀.peek.2)
        ((Window.reads_peek w₀).onto hover)
      have hpos := decideOn_take_pos h
      obtain ⟨rfl, rfl, -⟩ := decideOn_take h
      exact ⟨hsearch.window, hsearch.phase.trans (see_phase _ _ _), hphase, hpos⟩

/-- **A step finds the input consumed** where no rune is left in the window, or found it so
before. -/
theorem aim_done {lx : Lexer α η} (ho : ∀ w, lx.window = some w → ∃ R stop, w.Over R stop) :
    (lx.aim.1 = .stop .done ↔ lx.aim.2.phase = .exhausted) ∧
      (lx.aim.1 = .stop .done → lx.phase = .exhausted ∨
        ∃ w, lx.window = some w ∧ w.exhausted.1 = true) := by
  obtain ⟨p, haim, hp⟩ | ⟨w, hw, -, haim⟩ := aim_cases lx
  · rw [haim]
    refine ⟨?_, fun h => ?_⟩
    · rw [← hp]
      exact ⟨fun h => (Aim.stop.inj h), fun h => h ▸ rfl⟩
    · exact .inl (hp.mp (Aim.stop.inj h))
  · obtain ⟨R, stop, hover⟩ := ho w hw
    rw [haim]
    unfold aimIn
    simp only
    split
    next hover =>
      split
      · exact ⟨⟨by rintro ⟨⟩, by rintro ⟨⟩⟩, by rintro ⟨⟩⟩
      · exact ⟨⟨fun _ => rfl, fun _ => rfl⟩, fun _ => .inr ⟨w, hw, hover⟩⟩
    · have hsearch := searched_search (see_window { lx with phase := .matching } w w.peek.2)
        ((Window.reads_peek w).onto hover)
      have hphase := hsearch.phase.trans (see_phase _ _ _)
      rcases hdecide : decideOn _ _ _ _ with ⟨_ | p, lx'⟩
      · obtain ⟨-, rfl, -⟩ := decideOn_take hdecide
        refine ⟨⟨by rintro ⟨⟩, fun h => ?_⟩, by rintro ⟨⟩⟩
        cases hphase.symm.trans h
      · obtain ⟨rfl, hp⟩ | ⟨e, rfl, hp⟩ := decideOn_stop hdecide
        · refine ⟨⟨by rintro ⟨⟩, fun h => ?_⟩, by rintro ⟨⟩⟩
          cases (hp.trans hphase).symm.trans h
        · refine ⟨⟨by rintro ⟨⟩, fun h => ?_⟩, by rintro ⟨⟩⟩
          cases hp.symm.trans h

/-- **A step that dispatches nothing** has come to the end, or ends with an error. The error is
kept, unless an action is running or there is no source: then nothing changes. -/
theorem aim_stop {lx lx' : Lexer α η} {p : Progress} (h : lx.aim = (.stop p, lx')) :
    (p = .done ∧ lx'.phase = .exhausted) ∨ (∃ e, p = .failed e ∧ lx'.phase = .failed e) ∨
      (∃ e, p = .failed e ∧ lx' = lx ∧ (lx.phase = .dispatching ∨ lx.window = none)) ∨
        p = .broken := by
  unfold aim at h
  split at h
  next hp =>
    cases h
    exact .inl ⟨rfl, hp⟩
  next e hp =>
    cases h
    exact .inr (.inl ⟨e, rfl, hp⟩)
  next hp =>
    cases h
    exact .inr (.inr (.inl ⟨_, rfl, rfl, .inl hp⟩))
  next hw _ _ _ =>
    cases h
    exact .inr (.inr (.inl ⟨_, rfl, rfl, .inr hw⟩))
  next w hw _ _ _ =>
    unfold aimIn at h
    simp only at h
    split at h
    · split at h
      · cases h
        exact .inr (.inl ⟨_, rfl, rfl⟩)
      · cases h
        exact .inl ⟨rfl, rfl⟩
    · obtain ⟨hp, -⟩ | ⟨e, hp, hphase⟩ := decideOn_stop h
      · exact .inr (.inr (.inr hp))
      · exact .inr (.inl ⟨e, hp, hphase⟩)

/-! ## Steps -/

section

variable {ω : Type}

theorem step_stop (h : Host α η υ ω) (world : ω) {lx lx' : Lexer α η} {p : Progress}
    (haim : lx.aim = (.stop p, lx')) : lx.step h world = (p, lx', world) := by
  unfold step
  rw [haim]

/-- A step that dispatches runs one action, on the match consumed. -/
theorem step_take (h : Host α η υ ω) (world : ω) {lx lx' : Lexer α η} {t : Taker α} {n : Nat}
    {w : Window} (haim : lx.aim = (.take t n w, lx')) (hkeeps : w.keeps n = true)
    {acted : Option Error × Lexer α η × ω}
    (hacted : ({ lx' with phase := .dispatching }.consumed n w).runAction h t.action world =
      acted) :
    lx.step h world =
      ((acted.2.1.concluded acted.1).1, (acted.2.1.concluded acted.1).2, acted.2.2) := by
  unfold step
  rw [haim]
  unfold dispatch
  simp only [hkeeps, Bool.not_true, Bool.false_eq_true, if_false, hacted]

theorem step_broken (h : Host α η υ ω) (world : ω) {lx lx' : Lexer α η} {t : Taker α} {n : Nat}
    {w : Window} (haim : lx.aim = (.take t n w, lx')) (hkeeps : w.keeps n = false) :
    lx.step h world = (.broken, { lx' with phase := .dispatching }, world) := by
  unfold step
  rw [haim]
  unfold dispatch
  simp only [hkeeps, Bool.not_false, if_true]

/-- What a scan comes to if this is its last step. -/
def Progress.outcome : Progress → Outcome
  | .more => .unfinished
  | .done => .finished
  | .failed e => .failed e
  | .broken => .broken

/-- A scan goes on behind a step that dispatches. -/
theorem lex_more {h : Host α η υ ω} {lx lx' : Lexer α η} {world world' : ω}
    (hstep : lx.step h world = (.more, lx', world')) (limit : Nat) :
    lx.lex h (limit + 1) world = lx'.lex h limit world' := by
  unfold lex
  rw [lexUnless]
  simp only [ite_self, hstep]

/-- A scan is over with any other step. -/
theorem lex_stop {h : Host α η υ ω} {lx lx' : Lexer α η} {world world' : ω} {p : Progress}
    (hstep : lx.step h world = (p, lx', world')) (hp : p ≠ .more) (limit : Nat) :
    lx.lex h (limit + 1) world = (p.outcome, lx', world') := by
  unfold lex
  rw [lexUnless]
  simp only [ite_self, hstep]
  cases p with
  | more => exact absurd rfl hp
  | done | failed | broken => rfl

end

end Lexer

end Munch
