import Munch.Proofs.Freshness
import Munch.Proofs.Tiling

/-!
# Tokenizing, and scans at a position

A scan reads its source bit by bit, keeps what it has read ahead, and uses its matchers again and
again. `Task.tokenize` does none of that. It works on the complete list of the runes of the input,
with nothing but a position and the active state; what matches at a position is a function of the
two.

Actions and token handlers touch the lexer only by beginning states: `Talk` is what such a caller
may say, in the light of the answers it gets, and `Script` gives one to every action and handler.

* `Task.Stage`: a lexer at a position of its task, in an active state.

Results:
* `Task.Stage.talk`: what a caller gets to see, and the state it leaves, depend on nothing but the
  active state.
* `Task.Stage.aim_take`, `Task.Stage.aim_none` and `Task.Stage.aim_end`: a step takes the match of
  the task.
* `Task.Stage.perform`: so does the action, and the lexer is at the stage behind the match.
-/

namespace Munch

variable {α η υ ω β : Type}

open Lexer

/-! ## Callers that only begin states -/

/-- What a caller says that only begins states: each answer decides how it goes on. -/
inductive Talk (β : Type) where
  | done (result : β)
  | begin (state : Text) (next : Option Error → Talk β)

namespace Talk

/-- The caller talks to a lexer. -/
def on : Talk β → Lexer α η → β × Lexer α η
  | .done result, lx => (result, lx)
  | .begin state next, lx =>
    match lx.begin state with
    | .ok lx => (next none).on lx
    | .error e => (next (some e)).on lx

/-- What comes of it, and the state that is active in the end, if `active` is at the start. -/
def leave (states : States) (active : Text) : Talk β → β × Text
  | .done result => (result, active)
  | .begin state next =>
    if states.isDeclared state then (next none).leave states state
    else (next (some (.undeclaredState state))).leave states active

end Talk

/-- Actions and token handlers that only begin states. -/
structure Script (α η υ ω : Type) where
  act : α → Context → ω → Talk (Reply υ × ω)
  deliver : η → Token υ → ω → Talk ω

/-- What they do to a lexer. -/
def Script.host (h : Script α η υ ω) : Host α η υ ω where
  act a c lx world :=
    let ((reply, world), lx) := (h.act a c world).on lx
    (reply, lx, world)
  deliver handler t lx world :=
    let (world, lx) := (h.deliver handler t world).on lx
    (lx, world)

/-! ## Tokenizing the whole input -/

/-- What there is to tokenize: the runes of the input and its name, what was registered, and the
rule that takes the runes at a position, with their number, if there is one. -/
structure Task (α η : Type) where
  states : States
  rules : RuleTable α
  tokens : TokenTable
  handler : Option η
  input : Option Text
  runes : List Rune
  find : (state : Text) → (p : Nat) → Option (Rule α × Nat)

/-- What tokenizing comes to. -/
structure Account (α υ ω : Type) where
  events : List (Event α υ)
  outcome : Outcome
  /-- the state that is active in the end -/
  state : Text
  world : ω

/-- Scans can be in the state: they start there, or it can be begun. -/
def States.Reached (s : States) (state : Text) : Prop :=
  state = States.initial ∨ s.isDeclared state = true

/-- The line of the position behind `p` runes. -/
def lineAt (R : List Rune) (p : Nat) : Nat := 1 + (R.take p).count Rune.newline

namespace Task

/-- What takes the runes at a position, and how many of them. -/
def next (k : Task α η) (state : Text) (p : Nat) : Option (Taker α × Nat) :=
  match k.find state p with
  | some (r, n) => some (.rule r, n)
  | none => (k.rules.defaultFor state).map fun action => (.default action, 1)

/-- The context of a match of `n` runes. -/
def context (k : Task α η) (state : Text) (p n : Nat) : Context where
  state := state
  line := lineAt k.runes (p + n)
  text := Text.ofRunes ((k.runes.drop p).take n)
  span := ⟨p, p + n⟩
  input := k.input

/-- The error at a position where nothing takes a rune. -/
def mismatch (k : Task α η) (state : Text) (p : Nat) : Error :=
  .noMatch ⟨lineAt k.runes p, state, k.runes[p]?.getD 0, visible ((k.runes.drop p).take 16)⟩

/-- What the reply to the match of the context `c` comes to: an error, a token for the handler, or
nothing. -/
def effect (k : Task α η) (c : Context) (reply : Reply υ) : Effect η υ :=
  match reply.signal with
  | .skip => .nothing
  | .fail => .failed (.actionFailed c.line c.text (reply.error.getD .noReason))
  | _ =>
    if reply.token.isEmpty then .nothing
    else
      match k.tokens.find? reply.token, k.handler with
      | none, _ => .failed (.undeclaredToken reply.token c.line)
      | some _, none => .nothing
      | some tag, some handler => .token handler ⟨tag, c.text, reply.value, c.line, c.span⟩

/-- Runs the action of a match: the events, the error it ends with, the next state and the world. -/
def perform (k : Task α η) (h : Script α η υ ω) (c : Context) (action : Option α) (world : ω) :
    List (Event α υ) × Option Error × Text × ω :=
  match action with
  | none => ([], none, c.state, world)
  | some a =>
    let ((reply, world), state) := (h.act a c world).leave k.states c.state
    match k.effect c reply with
    | .nothing => ([], none, state, world)
    | .failed e => ([], some e, state, world)
    | .token handler t =>
      let (world, state) := (h.deliver handler t world).leave k.states state
      ([.delivered t], none, state, world)

/-- Tokenizes the input from the position `p` on, with at most `limit` steps. -/
def tokenize (k : Task α η) (h : Script α η υ ω) :
    (limit : Nat) → (state : Text) → (p : Nat) → ω → Account α υ ω
  | 0, state, _, world => ⟨[], .unfinished, state, world⟩
  | limit + 1, state, p, world =>
    if k.runes.length ≤ p then ⟨[.exhausted], .finished, state, world⟩
    else
      match k.next state p with
      | none => ⟨[], .failed (k.mismatch state p), state, world⟩
      | some (t, n) =>
        let c := k.context state p n
        let (es, failure, state, world) := k.perform h c t.action world
        let es := .dispatched t c :: es ++ [.returned]
        match failure with
        | some e => ⟨es, .failed e, state, world⟩
        | none =>
          let rest := k.tokenize h limit state (p + n) world
          { rest with events := es ++ rest.events }

/-! ## Scans at a position -/

/-- The lexer is at the position `p` of the task in the state `state`, with the matchers for runes
or for bytes; `es` are the events up to the call that attached the source, and `w` is its window. -/
structure Stage (k : Task α η) (es : List (Event α υ)) (dfa : Bool) (state : Text) (p : Nat)
    (lx : Lexer α η) (w : Window) : Prop where
  fresh : lx.Fresh es
  window : lx.window = some w
  onto : w.Over k.runes .ended
  offset : w.offset = p
  states : lx.states = k.states
  rules : lx.rules = k.rules
  tokens : lx.tokens = k.tokens
  handler : lx.handler = k.handler
  dfa : lx.options.dfa = dfa
  reached : k.states.Reached state
  state : lx.context.state = state
  line : lx.context.line = lineAt k.runes p
  input : lx.context.input = k.input

variable {k : Task α η} {es : List (Event α υ)} {dfa : Bool} {state : Text} {p : Nat}
  {lx lx' : Lexer α η} {w : Window}

/-- What is taken is a match of the task: the search of the lexer comes to what the task finds. -/
def Finds (k : Task α η) (es : List (Event α υ)) (dfa : Bool) : Prop :=
  ∀ {state p lx w}, k.Stage es dfa state p lx w → p < k.runes.length →
    (lx.search w).1 = .ofHit (k.find state p) ∧
      ∀ r n, k.find state p = some (r, n) → n ≤ (lx.search w).2.1.ahead.length

namespace Stage

theorem looks (h : k.Stage es dfa state p lx w) (hl : Looks lx lx') :
    ∃ w', k.Stage es dfa state p lx' w' ∧ Window.Reads w w' := by
  obtain ⟨w', hw', hreads⟩ := hl.window h.window
  have hkept := hl.kept
  refine ⟨w', ⟨h.fresh.looks hl, hw', hreads.onto h.onto, hreads.fixed.1.trans h.offset,
    hkept.states.trans h.states, hkept.rules.trans h.rules, hkept.tokens.trans h.tokens,
    hkept.handler.trans h.handler, (congrArg Options.dfa hkept.options).trans h.dfa,
    h.reached, (congrArg Context.state hkept.context).trans h.state,
    (congrArg Context.line hkept.context).trans h.line,
    (congrArg Context.input hkept.context).trans h.input⟩, hreads⟩

/-- Beginning a state changes the active state only. -/
theorem begin (h : k.Stage es dfa state p lx w) {target : Text} (hb : lx.begin target = .ok lx') :
    k.Stage es dfa target p lx' w ∧ lx'.phase = lx.phase := by
  unfold Lexer.begin at hb
  split at hb
  · cases hb
  next hdeclared =>
    rw [h.states, Bool.not_eq_true, Bool.not_eq_false'] at hdeclared
    split at hb
    next heq =>
      cases hb
      rw [h.state] at heq
      rw [heq]
      exact ⟨h, rfl⟩
    · cases hb
      exact ⟨⟨h.fresh.congr rfl rfl rfl rfl rfl, h.window, h.onto, h.offset, h.states, h.rules,
        h.tokens, h.handler, h.dfa, .inr hdeclared, rfl, h.line, h.input⟩, rfl⟩

/-- **A caller that only begins states** sees nothing of a lexer but which states are declared, and
leaves nothing but an active state. -/
theorem talk (h : k.Stage es dfa state p lx w) (t : Talk β) :
    (t.on lx).1 = (t.leave k.states state).1 ∧
      k.Stage es dfa (t.leave k.states state).2 p (t.on lx).2 w ∧ (t.on lx).2.phase = lx.phase := by
  induction t generalizing state lx with
  | done result => exact ⟨rfl, h, rfl⟩
  | begin target next ih =>
    rw [Talk.on, Talk.leave, ← h.states]
    by_cases hd : lx.states.isDeclared target = true
    · obtain ⟨lx', hb⟩ : ∃ lx', lx.begin target = .ok lx' := by
        unfold Lexer.begin
        rw [hd]
        simp only [Bool.not_true, Bool.false_eq_true, if_false]
        split <;> exact ⟨_, rfl⟩
      obtain ⟨hstage, hphase⟩ := h.begin hb
      rw [hb, if_pos hd, h.states]
      obtain ⟨h1, h2, h3⟩ := ih none hstage
      exact ⟨h1, h2, h3.trans hphase⟩
    · have hb : lx.begin target = .error (.undeclaredState target) := by
        unfold Lexer.begin
        rw [Bool.eq_false_iff.mpr hd]
        rfl
      rw [hb, if_neg hd, h.states]
      exact ih _ h

/-- Consuming a match moves on to the position behind it. -/
theorem consumed (h : k.Stage es dfa state p lx w) {n : Nat} (hn : w.keeps n = true) :
    k.Stage es dfa state (p + n) (lx.consumed n w) (w.consume n).2 ∧
      (lx.consumed n w).context = k.context state p n := by
  have hle := Window.keeps_iff.mp hn
  have htaken : w.ahead.take n = (k.runes.drop p).take n := by rw [h.onto.ahead_take hle, h.offset]
  have hline : (lx.consumed n w).context.line = lineAt k.runes (p + n) := by
    show lx.context.line + (Text.ofRunes (w.ahead.take n)).newlines = _
    rw [newlines_ofRunes, htaken, h.line, lineAt, lineAt, List.take_add, List.count_append]
    omega
  refine ⟨⟨h.fresh.consumed h.window hn, rfl, h.onto.consume hle,
    congrArg (· + n) h.offset, h.states,
    h.rules, h.tokens, h.handler, h.dfa, h.reached, h.state, hline, h.input⟩, ?_⟩
  show Context.mk _ _ _ _ _ = Context.mk _ _ _ _ _
  refine Context.mk.injEq .. |>.mpr ⟨h.state, hline, congrArg Text.ofRunes htaken, ?_, h.input⟩
  rw [h.offset]

/-! ## Steps -/

/-- Looking for a match leaves the scan where it is. -/
theorem aim (h : k.Stage es dfa state p lx w) : ∃ w', k.Stage es dfa state p lx.aim.2 w' := by
  obtain ⟨w', hstage, -⟩ := h.looks (looks_aim h.fresh.onto)
  exact ⟨w', hstage⟩

/-- Between two matches a step looks into the window of the scan. -/
theorem aim_eq (h : k.Stage es dfa state p lx w) (hp : lx.phase = .idle ∨ lx.phase = .matching) :
    lx.aim = aimIn w { lx with phase := .matching } := by
  unfold Lexer.aim
  obtain hp | hp := hp <;> rw [hp, h.window]

/-- At the end of the input a step finds it consumed. -/
theorem aim_end (h : k.Stage es dfa state p lx w) (hp : lx.phase = .idle ∨ lx.phase = .matching)
    (hend : k.runes.length ≤ p) : lx.aim.1 = .stop .done ∧ lx.aim.2.phase = .exhausted := by
  have hover : w.exhausted.1 = true := h.onto.exhausted.mpr (by rw [h.offset]; exact hend)
  have hfailure : w.exhausted.2.failure? = none :=
    ((Window.reads_peek w).onto h.onto).failure?_eq_none
  rw [h.aim_eq hp, aimIn]
  simp only [hover, hfailure, if_true]
  exact ⟨trivial, rfl⟩

/-- Before the end of the input a step decides on what its search finds. -/
theorem aim_search (h : k.Stage es dfa state p lx w) (hp : lx.phase = .idle ∨ lx.phase = .matching)
    (hlt : p < k.runes.length) :
    ∃ lx₁ w₁, k.Stage es dfa state p lx₁ w₁ ∧ w₁.ahead ≠ [] ∧
      lx.aim = (lx₁.search w₁).2.2.decideOn state (lx₁.search w₁).1 (lx₁.search w₁).2.1 := by
  have hnot : w.exhausted.1 = false := by
    refine Bool.eq_false_iff.mpr fun hover => ?_
    have := h.onto.exhausted.mp hover
    rw [h.offset] at this
    omega
  obtain ⟨w₁, hstage, -⟩ := h.looks ((Looks.refl.phase .matching).trans (looks_peek h.window))
  cases hstage.window.symm.trans (see_window _ _ _)
  refine ⟨_, _, hstage, h.onto.peek_ahead (by rw [h.offset]; exact hlt), ?_⟩
  rw [h.aim_eq hp, aimIn]
  simp only [hnot, Bool.false_eq_true, if_false]
  rw [← hstage.state]
  rfl

/-- **A step takes the match of the task.** -/
theorem aim_take (h : k.Stage es dfa state p lx w) (hfind : k.Finds es dfa)
    (hp : lx.phase = .idle ∨ lx.phase = .matching) (hlt : p < k.runes.length) {t : Taker α}
    {n : Nat} (hnext : k.next state p = some (t, n)) :
    ∃ w', lx.aim.1 = .take t n w' ∧ w'.keeps n = true ∧ k.Stage es dfa state p lx.aim.2 w' := by
  obtain ⟨lx₁, w₁, h₁, hne, haim⟩ := h.aim_search hp hlt
  obtain ⟨hfound, hlen⟩ := hfind h₁ hlt
  have hsearch := searched_search h₁.window h₁.onto
  obtain ⟨w₂, h₂, hreads⟩ := h₁.looks hsearch.looks
  cases hsearch.window.symm.trans h₂.window
  have hfailure := h₂.onto.failure?_eq_none
  refine ⟨(lx₁.search w₁).2.1, ?_⟩
  unfold next at hnext
  cases hk : k.find state p with
  | some hit =>
    rw [hk] at hnext hfound
    cases hnext
    have hpos : 0 < hit.2 := hsearch.found hit.1 hit.2 hfound
    rw [haim, hfound, Search.ofHit, decideOn_found hpos hfailure]
    exact ⟨rfl, Window.keeps_iff.mpr (hlen _ _ hk), h₂⟩
  | none =>
    rw [hk] at hnext hfound
    obtain ⟨action, haction, heq⟩ := Option.map_eq_some_iff.mp hnext
    cases heq
    rw [haim, hfound, Search.ofHit, decideOn_nothing hfailure, h₂.rules, haction]
    refine ⟨rfl, Window.keeps_iff.mpr ?_, h₂⟩
    have hle := hreads.ahead.length_le
    have := List.length_pos_iff.mpr hne
    omega

/-- Where nothing takes a rune a step fails. -/
theorem aim_none (h : k.Stage es dfa state p lx w) (hfind : k.Finds es dfa)
    (hp : lx.phase = .idle ∨ lx.phase = .matching) (hlt : p < k.runes.length)
    (hnext : k.next state p = none) :
    lx.aim.1 = .stop (.failed (k.mismatch state p)) ∧
      lx.aim.2.phase = .failed (k.mismatch state p) := by
  obtain ⟨lx₁, w₁, h₁, hne, haim⟩ := h.aim_search hp hlt
  obtain ⟨hfound, -⟩ := hfind h₁ hlt
  have hsearch := searched_search h₁.window h₁.onto
  obtain ⟨w₂, h₂, hreads⟩ := h₁.looks hsearch.looks
  cases hsearch.window.symm.trans h₂.window
  have hfailure := h₂.onto.failure?_eq_none
  have hlook := h₂.onto.lookahead 16
  obtain ⟨w₃, h₃, -⟩ := h₂.looks (Looks.refl.see hsearch.window (Window.reads_lookahead _ 16))
  unfold next at hnext
  cases hk : k.find state p with
  | some hit =>
    rw [hk] at hnext
    cases hnext
  | none =>
    rw [hk] at hnext
    have hdefault : k.rules.defaultFor state = none := Option.map_eq_none_iff.mp hnext
    have herror : Lexer.mismatch ((lx₁.search w₁).2.2.see (lx₁.search w₁).2.1
        ((lx₁.search w₁).2.1.lookahead 16).2) ((lx₁.search w₁).2.1.lookahead 16).1 =
        k.mismatch state p := by
      unfold Lexer.mismatch Task.mismatch
      rw [hlook, h₂.offset, h₃.line, h₃.state, List.headD_eq_head?_getD, List.head?_take,
        if_neg (by decide), List.head?_drop]
    rw [haim, hfound, hk, Search.ofHit, decideOn_nothing hfailure, h₂.rules, hdefault]
    simp only [herror]
    exact ⟨rfl, rfl⟩

/-! ## Actions -/

theorem effect (h : k.Stage es dfa state p lx w) (c : Context) (reply : Reply υ) :
    lx.effect c reply = k.effect c reply := by
  unfold Lexer.effect Task.effect
  rw [h.tokens, h.handler]
  cases k.tokens.find? reply.token <;> cases k.handler <;> rfl

/-- **An action comes to what the task says**: the same token or error, the same state and world. -/
theorem perform (h : k.Stage es dfa state p lx w) (script : Script α η υ ω) (action : Option α)
    (world : ω) :
    lx.actionEvents script.host .silent action world =
      (k.perform script lx.context action world).1 ∧
      (lx.runAction script.host action world).1 = (k.perform script lx.context action world).2.1 ∧
      (lx.runAction script.host action world).2.2 =
        (k.perform script lx.context action world).2.2.2 ∧
      k.Stage es dfa (k.perform script lx.context action world).2.2.1 p
        (lx.runAction script.host action world).2.1 w ∧
      (lx.runAction script.host action world).2.1.phase = lx.phase := by
  unfold Lexer.actionEvents Lexer.runAction Task.perform
  cases action with
  | none => exact ⟨rfl, rfl, rfl, h.state ▸ h, rfl⟩
  | some a =>
    obtain ⟨hreply, hstage, hphase⟩ := h.talk (script.act a lx.context world)
    rw [← h.state] at hreply hstage
    have hact : script.host.act a lx.context lx world =
        (((script.act a lx.context world).on lx).1.1, ((script.act a lx.context world).on lx).2,
          ((script.act a lx.context world).on lx).1.2) := rfl
    simp only [hact, hreply, hstage.effect, Chronicle.silent, List.nil_append]
    cases k.effect lx.context
        ((script.act a lx.context world).leave k.states lx.context.state).1.1 with
    | nothing => exact ⟨rfl, rfl, rfl, hstage, hphase⟩
    | failed e => exact ⟨rfl, rfl, rfl, hstage, hphase⟩
    | token handler t =>
      obtain ⟨hworld, hstage', hphase'⟩ := hstage.talk (script.deliver handler t
        ((script.act a lx.context world).leave k.states lx.context.state).1.2)
      exact ⟨rfl, rfl, hworld, hstage', hphase'.trans hphase⟩

end Stage

end Task

end Munch
