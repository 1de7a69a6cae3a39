import Munch.Proofs.Stages

/-!
# A scan tokenizes the whole input

A scan makes the dispatches of its task: it takes the matches that the complete list of the runes of
its input has at one position after the other.

* `Account.Tells`: an account of a task tells what a scan did.
* `Window.whole R p`: the window at the position `p` of an input that was read completely.

Results:
* `Task.Stage.lex`: a scan gives account of the same events as the task, and ends alike.
* `Task.tokenize_ends`: no task goes on forever.
* **`lex_tokenizes_whole_input`**: the scan of a source, for any lexer that matches runes.
-/

namespace Munch

variable {α η υ ω β : Type}

open Lexer

/-! ## Whole scans -/

/-- A scan with the events `es` that came to `result` is what the account tells. -/
structure Account.Tells (a : Account α υ ω) (es : List (Event α υ))
    (result : Outcome × Lexer α η × ω) : Prop where
  events : es = a.events
  outcome : result.1 = a.outcome
  world : result.2.2 = a.world
  state : result.2.1.context.state = a.state
  exhausted : result.2.1.phase = .exhausted ↔ a.outcome = .finished
  failed : ∀ e, result.2.1.phase = .failed e ↔ a.outcome = .failed e

/-- A scan that fails has its error in the phase of the lexer. -/
theorem Account.Tells.of_failed {a : Account α υ ω} {es : List (Event α υ)}
    {result : Outcome × Lexer α η × ω} {e : Error} (houtcome : a.outcome = .failed e)
    (hevents : es = a.events) (hresult : result.1 = .failed e)
    (hphase : result.2.1.phase = .failed e) (hworld : result.2.2 = a.world)
    (hstate : result.2.1.context.state = a.state) : a.Tells es result where
  events := hevents
  outcome := hresult.trans houtcome.symm
  world := hworld
  state := hstate
  exhausted := by
    rw [hphase, houtcome]
    exact ⟨nofun, nofun⟩
  failed e' := by
    rw [hphase, houtcome, Phase.failed.injEq, Outcome.failed.injEq]

namespace Task

variable {k : Task α η} {es : List (Event α υ)} {dfa : Bool} {state : Text} {p : Nat}
  {lx : Lexer α η} {w : Window}

/-- At the end of the input a step says so, and is the last one. -/
theorem Stage.step_end (h : k.Stage es dfa state p lx w)
    (hp : lx.phase = .idle ∨ lx.phase = .matching) (hend : k.runes.length ≤ p)
    (script : Script α η υ ω) (world : ω) :
    lx.stepEvents script.host .silent world = [.exhausted] ∧
      lx.step script.host world = (.done, lx.aim.2, world) := by
  have haim : lx.aim = (.stop .done, lx.aim.2) := Prod.ext (h.aim_end hp hend).1 rfl
  rw [stepEvents, step, haim]
  exact ⟨rfl, rfl⟩

/-- Where nothing takes a rune a step fails, and there is nothing to tell of it. -/
theorem Stage.step_none (h : k.Stage es dfa state p lx w) (hfind : k.Finds es dfa)
    (hp : lx.phase = .idle ∨ lx.phase = .matching) (hlt : p < k.runes.length)
    (hnext : k.next state p = none) (script : Script α η υ ω) (world : ω) :
    lx.stepEvents script.host .silent world = [] ∧
      lx.step script.host world = (.failed (k.mismatch state p), lx.aim.2, world) := by
  have haim : lx.aim = (.stop (.failed (k.mismatch state p)), lx.aim.2) :=
    Prod.ext (h.aim_none hfind hp hlt hnext).1 rfl
  rw [stepEvents, step, haim]
  exact ⟨rfl, rfl⟩

/-- A step that dispatches does what the task says of the match. -/
theorem Stage.step_take (h : k.Stage es dfa state p lx w) (hfind : k.Finds es dfa)
    (hp : lx.phase = .idle ∨ lx.phase = .matching) (hlt : p < k.runes.length) {t : Taker α}
    {n : Nat} (hnext : k.next state p = some (t, n)) (script : Script α η υ ω) (world : ω) :
    lx.stepEvents script.host .silent world = .dispatched t (k.context state p n) ::
        (k.perform script (k.context state p n) t.action world).1 ++ [.returned] ∧
      (lx.step script.host world).2.2 =
        (k.perform script (k.context state p n) t.action world).2.2.2 ∧
      (∃ w', k.Stage es dfa (k.perform script (k.context state p n) t.action world).2.2.1 (p + n)
        (lx.step script.host world).2.1 w') ∧
      match (k.perform script (k.context state p n) t.action world).2.1 with
      | some e => (lx.step script.host world).1 = .failed e ∧
          (lx.step script.host world).2.1.phase = .failed e
      | none => (lx.step script.host world).1 = .more ∧
          (lx.step script.host world).2.1.phase = .matching := by
  obtain ⟨w', htake, hkeeps, hstage⟩ := h.aim_take hfind hp hlt hnext
  have haim : lx.aim = (.take t n w', lx.aim.2) := Prod.ext htake rfl
  obtain ⟨w'', hstage₁, -⟩ := hstage.looks (Looks.refl.phase .dispatching)
  cases hstage.window.symm.trans hstage₁.window
  obtain ⟨hstage₂, hcontext⟩ := hstage₁.consumed hkeeps
  obtain ⟨hevents, hfailure, hworld, hstage₃, hphase⟩ := hstage₂.perform script t.action world
  rw [hcontext] at hevents hfailure hworld hstage₃
  have hstep : lx.step script.host world =
      dispatch script.host t.action n w' lx.aim.2 world := by
    rw [step, haim]
  have hes : lx.stepEvents script.host .silent world =
      dispatchEvents script.host .silent t n w' lx.aim.2 world := by
    rw [stepEvents, haim]
  rw [hstep, hes]
  unfold dispatch dispatchEvents
  simp only [hkeeps, Bool.not_true, Bool.false_eq_true, if_false, hevents, hcontext, hfailure,
    hworld]
  refine ⟨trivial, trivial, ?_⟩
  unfold concluded
  cases (k.perform script (k.context state p n) t.action world).2.1 with
  | some e =>
    obtain ⟨v, hstage₄, -⟩ := hstage₃.looks (Looks.refl.fail e)
    exact ⟨⟨v, hstage₄⟩, rfl, rfl⟩
  | none =>
    obtain ⟨v, hstage₄, -⟩ := hstage₃.looks (Looks.refl.phase .matching)
    simp only [hphase.trans (show _ = Phase.dispatching from rfl), if_true]
    exact ⟨⟨v, hstage₄⟩, trivial, trivial⟩

/-- **A scan is what the task gives account of.** The induction is on the limit; the lexer is at the
position and in the state of the task all the way. -/
theorem Stage.lex (h : k.Stage es dfa state p lx w) (hfind : k.Finds es dfa)
    (hp : lx.phase = .idle ∨ lx.phase = .matching) (script : Script α η υ ω) (limit : Nat)
    (world : ω) :
    (k.tokenize script limit state p world).Tells
      (lx.lexEvents script.host .silent (fun _ => none) limit world)
        (lx.lex script.host limit world) := by
  induction limit generalizing state p lx w world with
  | zero =>
    refine ⟨rfl, rfl, rfl, h.state, ⟨fun hx => ?_, by rintro ⟨⟩⟩, fun e =>
      ⟨fun hx => ?_, by rintro ⟨⟩⟩⟩
    all_goals
      change lx.phase = _ at hx
      obtain hp | hp := hp <;> cases hp.symm.trans hx
  | succ limit ih =>
    rw [tokenize, lexEvents, Lexer.lex, lexUnless]
    simp only [ite_self]
    obtain ⟨w', haimed⟩ := h.aim
    split
    next hend =>
      have hexhausted := (h.aim_end hp hend).2
      obtain ⟨hes, hstep⟩ := h.step_end hp hend script world
      rw [hes, hstep]
      refine ⟨rfl, rfl, rfl, haimed.state, ⟨fun _ => rfl, fun _ => hexhausted⟩,
        fun e => ⟨fun hx => ?_, by rintro ⟨⟩⟩⟩
      cases hexhausted.symm.trans hx
    next hlt =>
      rw [Nat.not_le] at hlt
      split
      next hnext =>
        obtain ⟨hes, hstep⟩ := h.step_none hfind hp hlt hnext script world
        rw [hes, hstep]
        exact .of_failed rfl rfl rfl (h.aim_none hfind hp hlt hnext).2 rfl haimed.state
      next t n hnext =>
        obtain ⟨hes, hworld, ⟨w', hstage⟩, hend⟩ := h.step_take hfind hp hlt hnext script world
        rw [hes]
        rcases hstep : lx.step script.host world with ⟨progress, lx', world'⟩
        rw [hstep] at hworld hstage hend
        rcases hperform : k.perform script (k.context state p n) t.action world with
          ⟨events, failure, state', world''⟩
        rw [hperform] at hworld hstage hend
        cases hworld
        cases failure with
        | some e =>
          obtain ⟨rfl, hphase⟩ := hend
          exact .of_failed rfl (List.append_nil _) rfl hphase rfl hstage.state
        | none =>
          obtain ⟨rfl, hphase⟩ := hend
          obtain ⟨h1, h2, h3, h4, h5, h6⟩ := ih hstage (.inr hphase) world'
          exact ⟨congrArg _ h1, h2, h3, h4, h5, h6⟩

/-- Tokenizing comes to an end if every match takes a rune. -/
theorem tokenize_ends (k : Task α η)
    (hpos : ∀ state p r n, p < k.runes.length → k.find state p = some (r, n) → 0 < n)
    (script : Script α η υ ω) (limit : Nat) (state : Text) (p : Nat) (world : ω)
    (hlimit : k.runes.length - p < limit) :
    (k.tokenize script limit state p world).outcome = .finished ∨
      ∃ e, (k.tokenize script limit state p world).outcome = .failed e := by
  induction limit generalizing state p world with
  | zero => exact absurd hlimit (Nat.not_lt_zero _)
  | succ limit ih =>
    rw [tokenize]
    split
    · exact .inl rfl
    next hlt =>
      split
      · exact .inr ⟨_, rfl⟩
      next t n hnext =>
        have hn : 0 < n := by
          unfold next at hnext
          split at hnext
          next r m hfind =>
            cases hnext
            exact hpos state p r n (Nat.lt_of_not_le hlt) hfind
          · obtain ⟨action, -, heq⟩ := Option.map_eq_some_iff.mp hnext
            cases heq
            exact Nat.one_pos
        simp only
        split
        · exact .inr ⟨_, rfl⟩
        · exact ih _ _ _ (by omega)

end Task

/-! ## Matching runes -/

/-- A window onto the runes `R` at the position `p`, all of them read. -/
def Window.whole (R : List Rune) (p : Nat) : Window where
  source := .direct ⟨[], .ended⟩ true none
  ahead := R.drop p
  ending := some .announced
  prev := (R.take p).getLastD Rune.absent
  offset := p
  total := R.length

theorem Window.over_whole {R : List Rune} {p : Nat} (hp : p ≤ R.length) :
    (whole R p).Over R .ended where
  rest := List.append_nil _
  offset_le := hp
  prev := rfl
  reason := rfl
  ending := by
    rintro e ⟨⟩
    rfl
  total := rfl

/-- The task of a lexer on a source: at a position, what a new matcher finds in the complete rest of
the input, knowing the rune before it. -/
def Lexer.task (lx : Lexer α η) (s : Source) : Task α η where
  states := lx.states
  rules := lx.rules
  tokens := lx.tokens
  handler := lx.handler
  input := s.name
  runes := s.pending
  find state p := (({} : RuneMatcher α).longest lx.rules state (.whole s.pending p)).1

/-- A search over runes finds what a new matcher does in the complete rest of the input. -/
theorem Lexer.task_finds (lx : Lexer α η) (s : Source) (es : List (Event α υ)) :
    (lx.task s).Finds es false := by
  intro state p lx' w h hlt
  have hhit := h.fresh.runes.longest lx'.context.state h.onto
  have hwhole := (RuneMatcher.fresh_new lx.rules).longest lx'.context.state
    (Window.over_whole (R := s.pending) (Nat.le_of_lt hlt))
  have hsame : (lx'.runes.longest lx'.rules lx'.context.state w).1 = (lx.task s).find state p := by
    rw [hhit, h.onto.prev, h.rules, h.offset, ← h.state]
    exact hwhole.symm
  have hsearch : lx'.search w = lx'.searchRunes w := by
    unfold Lexer.search
    rw [h.dfa]
    rfl
  rw [hsearch, ← hsame]
  refine ⟨rfl, fun r n hr => ?_⟩
  exact ((lx'.runes.longest_window lx'.rules lx'.context.state h.onto).2 r n hr).2

theorem Lexer.task_find_pos (lx : Lexer α η) (s : Source) {state : Text} {p : Nat} {r : Rule α}
    {n : Nat} (hp : p < s.pending.length) (h : (lx.task s).find state p = some (r, n)) : 0 < n :=
  ((RuneMatcher.longest_window {} lx.rules state (Window.over_whole (Nat.le_of_lt hp))).2 r n h).1

/-- A scan that starts is at the first position of its task. -/
theorem Lexer.stage_attachSource {es : List (Event α υ)} {lx : Lexer α η} (run : Run {} es lx)
    (s : Source) (hs : s.reason = .ended) {k : Task α η} (hk : k.runes = s.pending)
    (hinput : k.input = s.name) (hstates : lx.states = k.states) (hrules : lx.rules = k.rules)
    (htokens : lx.tokens = k.tokens) (hhandler : lx.handler = k.handler) :
    k.Stage (es ++ [.attached s]) lx.options.dfa States.initial 0 (lx.attachSource s)
      (.ofSource s) := by
  have ha := attached_attachSource lx s
  refine ⟨fresh_of_run (run.attach s), ha.window, ?_, rfl, ha.states.trans hstates,
    ha.rules.trans hrules, ha.tokens.trans htokens, ha.handler.trans hhandler, by rw [ha.options],
    .inl rfl, ?_, ?_, ?_⟩
  · rw [hk, ← hs]
    exact Window.over_ofSource s
  · rw [ha.context]
  · rw [ha.context]
    rfl
  · rw [ha.context, hinput]

/-- **A scan tokenizes the whole input.** Of any lexer that matches runes and of any source that
ends without a read error: a scan gives account of the same matches, tokens and endings as the task,
which takes at each position of the complete input what a new matcher finds there. Given enough
steps it comes to an end. -/
theorem lex_tokenizes_whole_input {es : List (Event α υ)} {lx : Lexer α η} (run : Run {} es lx)
    (hdfa : lx.options.dfa = false) (s : Source) (hs : s.reason = .ended) (script : Script α η υ ω)
    (limit : Nat) (world : ω) :
    ((lx.task s).tokenize script limit States.initial 0 world).Tells
        ((lx.attachSource s).lexEvents script.host .silent (fun _ => none) limit world)
        ((lx.attachSource s).lex script.host limit world) ∧
      (s.pending.length < limit →
        ((lx.task s).tokenize script limit States.initial 0 world).outcome ≠ .unfinished) := by
  have hstage := Lexer.stage_attachSource run s hs (k := lx.task s) rfl rfl rfl rfl rfl rfl
  rw [hdfa] at hstage
  refine ⟨hstage.lex (lx.task_finds s _) (.inl (attached_attachSource lx s).phase) script limit
    world, ?_⟩
  intro hlimit hunfinished
  have hends :=
    (lx.task s).tokenize_ends (fun state p r n hp hfind => lx.task_find_pos s hp hfind) script
      limit States.initial 0 world hlimit
  obtain hend | ⟨e, hend⟩ := hends
  · cases hend.symm.trans hunfinished
  · cases hend.symm.trans hunfinished

/-- A lexer with a state of its own for what follows an `a`. -/
def switching : Lexer Text Unit :=
  .configured [.declare "S" .exclusive, .rule "a+" (some "S"), .rule "<S>b" (some "initial")]

/-- Actions that begin the state they are named by. -/
def switchingScript : Script Text Unit Unit Unit where
  act a _ _ := .begin a fun _ => .done ({}, ())
  deliver _ _ _ := .done ()

set_option maxRecDepth 10000 in
theorem lex_tokenizes_whole_input_switching :
    ((contexts ((switching.attachSource (.ofText "aaba")).lexEvents switchingScript.host .silent
          (fun _ => none) 5 ())).map fun c => (c.text.shown, c.state.shown, c.span)) =
        [("aa", "initial", ⟨0, 2⟩), ("b", "S", ⟨2, 3⟩), ("a", "initial", ⟨3, 4⟩)] ∧
      ((switching.attachSource (.ofText "aaba")).lex switchingScript.host 5 ()).1 = .finished := by
  have run : Run (υ := Unit) {} [] switching := (Run.nil {}).settings _
  obtain ⟨htells, -⟩ := lex_tokenizes_whole_input run (by decide +kernel) (.ofText "aaba") rfl
    switchingScript 5 ()
  rw [htells.events, htells.outcome]
  decide +kernel

end Munch
