import Munch.Proofs.Finder

/-!
# Scans make progress

Each step that goes on has consumed a rune, so a scan is over after as many dispatches as its source
has runes. For this it makes no difference what is reported as the length of a match. A scan that
looks for matches among runes does not break down.

* `Lexer.Aim.Stands`: what a step aims at does not break it down.

Results:
* `Lexer.At.stands_aim`: a step among runes breaks nothing down.
* `Lexer.stepBy_consumes`: a step that goes on consumes a rune.
* **`lex_makes_progress`**: steps that go on consume a rune, and scans end.
-/

namespace Munch

open Lexer

variable {α η υ ω : Type}

namespace Lexer

variable {lx : Lexer α η} {h : Host α η υ ω} {k : Chronicle α η υ ω}

/-! ## Scans that break down -/

/-- Only a search that broke down breaks a step down. -/
theorem decideOn_broken {state : Text} {found : Search α} {w : Window}
    (h : (lx.decideOn state found w).1 = .stop .broken) : found = .broken := by
  unfold decideOn at h
  split at h
  · cases h
  · rfl
  · split at h
    · cases h
    · split at h
      · cases h
      · split at h <;> cases h

/-- What is to be done breaks nothing down: the runes of a match are in the window. -/
def Aim.Stands : Aim α → Prop
  | .take _ n w => w.keeps n = true
  | .stop p => p ≠ .broken

/-- What follows from a search among runes breaks nothing down. -/
theorem stands_searchRunes (lx : Lexer α η) {w : Window} {R : List Rune} {stop : Stop}
    (ho : w.Over R stop) (hahead : w.ahead ≠ []) (state : Text) :
    ((lx.searchRunes w).2.2.decideOn state (lx.searchRunes w).1
      (lx.searchRunes w).2.1).1.Stands := by
  obtain ⟨hreads, hlength⟩ := lx.runes.longest_window lx.rules lx.context.state ho
  generalize hdecided : decideOn _ _ _ _ = decided
  obtain ⟨aim, lx'⟩ := decided
  cases aim with
  | take t n w' =>
    obtain ⟨rfl, -, ⟨r, hfound, -⟩ | ⟨-, -, -, rfl⟩⟩ := decideOn_take hdecided
    · exact Window.keeps_iff.mpr (hlength r n (ofHit_eq_found.mp hfound)).2
    · have hle := hreads.ahead.length_le
      have hpos := List.length_pos_iff.mpr hahead
      exact Window.keeps_iff.mpr (hpos.trans_le hle)
  | stop q =>
    rintro rfl
    have hnone : Search.ofHit (lx.runes.longest lx.rules lx.context.state w).1 = .broken :=
      decideOn_broken (congrArg Prod.fst hdecided)
    unfold Search.ofHit at hnone
    split at hnone <;> cases hnone

/-- **A step among runes breaks nothing down.** -/
theorem At.stands_aim {R : List Rune} {stop : Stop} {p : Nat} (hat : lx.At R stop p)
    (hdfa : lx.options.dfa = false) : lx.aim.1.Stands := by
  obtain ⟨w, hw, ho, -⟩ := hat.window
  have hbegun (hp : lx.phase = .idle ∨ lx.phase = .matching) : lx.aim.1.Stands := by
    rw [aim_attached hp hw, aimIn]
    simp only
    split
    · split <;> rintro ⟨⟩
    next hmore =>
      have hahead : w.peek.2.ahead ≠ [] := ho.peek_ahead (by
        rw [ho.exhausted] at hmore
        omega)
      have hrunes : (({ lx with phase := .matching } : Lexer α η).see w w.peek.2).options.dfa =
          false := by
        rw [((Looks.refl.phase .matching).trans (looks_peek hw)).kept.options, hdfa]
      have hsearch : (({ lx with phase := .matching } : Lexer α η).see w w.peek.2).search w.peek.2 =
          (({ lx with phase := .matching } : Lexer α η).see w w.peek.2).searchRunes w.peek.2 :=
        if_neg (by rw [hrunes]; decide)
      rw [show w.exhausted.2 = w.peek.2 from rfl, hsearch]
      exact stands_searchRunes _ ((Window.reads_peek w).onto ho) hahead _
  cases hphase : lx.phase with
  | idle => exact hbegun (.inl hphase)
  | matching => exact hbegun (.inr hphase)
  | dispatching => exact absurd hphase hat.phase
  | exhausted =>
    rw [aim_exhausted hphase]
    rintro ⟨⟩
  | failed e =>
    rw [aim_failed hphase]
    rintro ⟨⟩

/-- A step that breaks down looked for a match among bytes. -/
theorem At.step_broken {R : List Rune} {stop : Stop} {p : Nat} (hat : lx.At R stop p)
    (h : Host α η υ ω) (world : ω) (hbroken : (lx.step h world).1 = .broken) :
    (lx.step h world).2.1.options.dfa = true := by
  by_contra hdfa
  rw [Bool.not_eq_true] at hdfa
  have hlooks : Looks lx lx.aim.2 := looks_aim fun w hw => by
    obtain ⟨w', hw', ho, -⟩ := hat.window
    cases hw.symm.trans hw'
    exact ⟨R, stop, ho⟩
  rcases haim : lx.aim with ⟨⟨t, n, w⟩ | q, lx'⟩
  · rw [haim] at hlooks
    by_cases hkeeps : w.keeps n = true
    · rw [step_take h world haim hkeeps rfl] at hbroken
      unfold concluded at hbroken
      split at hbroken <;> cases hbroken
    · rw [Bool.not_eq_true] at hkeeps
      rw [Lexer.step_broken h world haim hkeeps] at hdfa
      have hstands := hat.stands_aim (hlooks.kept.options ▸ hdfa)
      rw [haim] at hstands
      cases hkeeps.symm.trans hstands
  · rw [haim] at hlooks
    rw [step_stop h world haim] at hbroken hdfa
    have hstands := hat.stands_aim (hlooks.kept.options ▸ hdfa)
    rw [haim] at hstands
    exact hstands hbroken

/-- **A scan breaks down in a search among bytes only.** -/
theorem At.lex_broken (hk : h.Calls k) (hquiet : k.Quiet) {R : List Rune} {stop : Stop}
    (limit : Nat) {p : Nat} (hat : lx.At R stop p) {world : ω}
    (hbroken : (lx.lex h limit world).1 = .broken) :
    (lx.lex h limit world).2.1.options.dfa = true := by
  induction limit generalizing lx p world with
  | zero => cases hbroken
  | succ limit ih =>
    have hstep := hat.stepBy_advances readsOn_search hk hquiet world
    have hdfa := hat.step_broken h world
    rw [stepBy_search] at hstep
    rw [lex, lexUnless, ite_self] at hbroken ⊢
    generalize lx.step h world = result at hstep hdfa hbroken
    cases hstep with
    | more world' _ _ _ hat' => exact ih hat' hbroken
    | done => cases hbroken
    | failed => cases hbroken
    | broken lx' world' htaken => exact hdfa rfl

end Lexer

/-! ## Progress -/

namespace Lexer

variable {lx : Lexer α η} {h : Host α η υ ω} {k : Chronicle α η υ ω}

/-- A step that goes on is one of a scan. -/
theorem at_of_more {m : Finder α η} (ho : ∀ w, lx.window = some w → ∃ R stop, w.Over R stop)
    {world : ω} (hmore : (lx.stepBy m h world).1 = .more) :
    ∃ w R stop, lx.window = some w ∧ lx.At R stop w.offset := by
  have hphase : lx.phase ≠ .dispatching := by
    intro hp
    rw [stepBy, aimBy, hp] at hmore
    cases hmore
  cases hw : lx.window with
  | none =>
    rw [stepBy, aimBy, hw] at hmore
    cases hp : lx.phase <;> rw [hp] at hmore <;> cases hmore
  | some w =>
    obtain ⟨R, stop, hover⟩ := ho w hw
    exact ⟨w, R, stop, rfl, hphase, w, hw, hover, rfl⟩

/-- **A step that goes on has consumed a rune.** -/
theorem stepBy_consumes {m : Finder α η} (hm : m.ReadsOn) (hk : h.Calls k) (hquiet : k.Quiet)
    (ho : ∀ w, lx.window = some w → ∃ R stop, w.Over R stop) {world : ω}
    (hmore : (lx.stepBy m h world).1 = .more) :
    ∃ w w', lx.window = some w ∧ (lx.stepBy m h world).2.1.window = some w' ∧
      w.offset < w'.offset := by
  obtain ⟨w, R, stop, hw, hat⟩ := at_of_more ho hmore
  have hstep := hat.stepBy_advances hm hk hquiet world
  generalize lx.stepBy m h world = result at hstep hmore
  cases hstep with
  | more world' hp hp' htaken hat' =>
    obtain ⟨w', hw', -, rfl⟩ := hat'.window
    exact ⟨w, w', hw, hw', hp⟩
  | done => cases hmore
  | failed => cases hmore
  | broken => cases hmore

end Lexer

/-- **Scans make progress.** Whatever looks for a match in place of the lexer's own search, and
whatever length it reports: with actions and handlers that attach no source each step that goes on
has consumed a rune, and a scan of `N` runes is over after at most `N` dispatches, in the phase that
tells how it ended, unless something broke down. So it is with the lexer's own search, which breaks
down among bytes only. -/
theorem lex_makes_progress {es : List (Event α υ)} {lx : Lexer α η} (run : Run {} es lx)
    {h : Host α η υ ω} {k : Chronicle α η υ ω} (hk : h.Calls k) (hquiet : k.Quiet) :
    (∀ m : Finder α η, m.ReadsOn →
      (∀ world, (lx.stepBy m h world).1 = .more → ∃ w w', lx.window = some w ∧
        (lx.stepBy m h world).2.1.window = some w' ∧ w.offset < w'.offset) ∧
      ∀ s limit world, s.pending.length < limit →
        ((lx.attachSource s).dispatchesBy m h limit world).length ≤ s.pending.length ∧
          ((lx.attachSource s).lexBy m h limit world).1.Settles
            ((lx.attachSource s).lexBy m h limit world).2.1) ∧
    (∀ world, (lx.step h world).1 = .more → ∃ w w', lx.window = some w ∧
      (lx.step h world).2.1.window = some w' ∧ w.offset < w'.offset) ∧
    ∀ s limit world, s.pending.length < limit →
      (dispatches ((lx.attachSource s).lexEvents h k (fun _ => none) limit world)).length ≤
        s.pending.length ∧
        ((lx.attachSource s).lex h limit world).1.Settles
          ((lx.attachSource s).lex h limit world).2.1 ∧
        (((lx.attachSource s).lex h limit world).1 = .broken →
          ((lx.attachSource s).lex h limit world).2.1.options.dfa = true) := by
  have hnew : Placed ([] : List (Event α υ)) ({} : Lexer α η) := ⟨rfl, by rintro ⟨⟩⟩
  have ho := (invariant_placed.of_run run hnew).onto
  have hends (m : Finder α η) (hm : m.ReadsOn) (s : Source) (limit : Nat) (world : ω)
    (hlt : s.pending.length < limit) :
      ((lx.attachSource s).dispatchesBy m h limit world).length ≤ s.pending.length ∧
        ((lx.attachSource s).lexBy m h limit world).1.Settles
          ((lx.attachSource s).lexBy m h limit world).2.1 := by
    obtain ⟨hdispatched, hsettles⟩ := (at_attachSource lx s).lexBy_ends hm hk hquiet limit world
    exact ⟨by omega, hsettles (by omega)⟩
  refine ⟨fun m hm => ⟨fun world hmore => stepBy_consumes hm hk hquiet ho hmore, hends m hm⟩,
    fun world hmore => stepBy_consumes readsOn_search hk hquiet ho hmore,
    fun s limit world hlt => ?_⟩
  obtain ⟨hdispatched, hsettles⟩ := hends search readsOn_search s limit world hlt
  rw [← dispatches_lexEvents hk hquiet] at hdispatched
  rw [lexBy_search] at hsettles
  exact ⟨hdispatched, hsettles, (at_attachSource lx s).lex_broken hk hquiet limit⟩

/-- A lexer whose rules take the empty text. -/
def idling : Lexer Nat Unit :=
  Lexer.configured [.rule "a*" (some 1), .rule "^" (some 2), .defaultRule (some 3)]

/-- Actions that skip their match. -/
def skipping : Host Nat Unit Unit Unit :=
  ⟨fun _ _ lx world => ({ signal := .skip }, lx, world), fun _ _ lx world => (lx, world)⟩

/-- A finder that reports the first rule, and a match without runes. -/
def reportsEmpty : Finder Nat Unit := fun lx w =>
  match lx.rules.rulesFor lx.context.state with
  | r :: _ => (.found r 0, w, lx)
  | [] => (.nothing, w, lx)

theorem reportsEmpty_readsOn : reportsEmpty.ReadsOn where
  reads _ _ := by
    unfold reportsEmpty
    split <;> exact .refl _
  window hw _ := by
    unfold reportsEmpty
    split <;> exact hw

set_option maxRecDepth 10000 in
theorem lex_makes_progress_idling :
    ((dispatches
        ((idling.attachSource (.ofText "bab")).lexEvents skipping .silent (fun _ => none) 4 ())).map
          fun d => (d.1.action, d.2.span)) =
        [(some 3, ⟨0, 1⟩), (some 1, ⟨1, 2⟩), (some 3, ⟨2, 3⟩)] ∧
      ((idling.attachSource (.ofText "bab")).dispatchesBy reportsEmpty skipping 4 ()).length ≤ 3 ∧
      ((idling.attachSource (.ofText "bab")).lex skipping 4 ()).1.Settles
        ((idling.attachSource (.ofText "bab")).lex skipping 4 ()).2.1 := by
  have hcalls : skipping.Calls .silent := ⟨fun _ _ lx _ => .nil lx, fun _ _ lx _ => .nil lx⟩
  have run : Run (υ := Unit) {} [] idling := (Run.nil {}).settings _
  obtain ⟨hany, -, hown⟩ := lex_makes_progress run hcalls Chronicle.quiet_silent
  have hlength : (Source.ofText "bab").pending.length = 3 := by decide +kernel
  have hends := hown (.ofText "bab") 4 () (hlength ▸ by decide)
  have hidle := (hany _ reportsEmpty_readsOn).2 (.ofText "bab") 4 () (by rw [hlength]; decide)
  refine ⟨by decide +kernel, ?_, hends.2.1⟩
  rw [← hlength]
  exact hidle.1

end Munch
