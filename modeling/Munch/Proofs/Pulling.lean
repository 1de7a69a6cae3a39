import Munch.Proofs.ScanLikeness
import Munch.Tokenizer

/-!
# Pulling tokens

A tokenizer steps its lexer when it is asked for a token and has none. It hands out the tokens that
a whole scan would hand to the token handler, in the same order, and then says forever that the
input has ended. The error that would end the scan goes to the error handler, once.

* `pushing` and `pulling`: the same actions with a token handler that keeps a list, and with one
  that fills the queue of a tokenizer.
* `Tokenizer.pulls`: asks a tokenizer again and again.

Results:
* `Lexer.pushed_step`: a step appends to the list, and only one that goes on does so.
* `step_live`: a step of the tokenizer's lexer is the next one of the scan, or the last one.
* `next_live`: one request to a tokenizer, while the scan is going on.
* **`tokenizer_pulls_pushed`**: pulling and pushing agree.
-/

namespace Munch

open Lexer

variable {α η υ ω : Type}

/-! ## Two hosts for the same actions -/

/-- Actions that are callers with worlds of their own. -/
abbrev Actions (α η υ ω : Type) := α → Context → ω → Client α η ω (Reply υ)

/-- The host whose handler keeps the tokens in a list. The actions' own steps are served by
`inner`. -/
def pushing (actions : Actions α η υ ω) (inner : Host α η υ ω) :
    Host α η υ (ω × List (Token υ)) where
  act a c lx world :=
    let (reply, lx, own) := (actions a c world.1).on inner lx
    (reply, lx, own, world.2)
  deliver _ t lx world := (lx, world.1, world.2 ++ [t])

/-- The world of a tokenizer: that of the actions, its queue, and the errors that went to its
handler. -/
structure Feeding (υ ω : Type) where
  own : ω
  tokenizer : Tokenizer υ := {}
  reported : List Error := []

/-- The host whose handler fills the queue of a tokenizer. -/
def pulling (actions : Actions α η υ ω) (inner : Host α η υ ω) : Host α η υ (Feeding υ ω) where
  act a c lx world :=
    let (reply, lx, own) := (actions a c world.own).on inner lx
    (reply, lx, { world with own := own })
  deliver _ t lx world := (lx, { world with tokenizer := world.tokenizer.push t })

namespace Feeding

/-- Where the tokenizer is kept. -/
def place : Place υ (Feeding υ ω) := ⟨(·.tokenizer), fun t world => { world with tokenizer := t }⟩

@[simp] theorem place_get (world : Feeding υ ω) : place.get world = world.tokenizer := rfl

@[simp] theorem place_set (t : Tokenizer υ) (world : Feeding υ ω) :
    place.set t world = { world with tokenizer := t } := rfl

/-- The error handler, which may do anything to the lexer. -/
def report (f : Error → Lexer α η → Lexer α η) (e : Error) (lx : Lexer α η) (world : Feeding υ ω) :
    Lexer α η × Feeding υ ω :=
  (f e lx, { world with reported := world.reported ++ [e] })

end Feeding

/-- Asks a tokenizer `n` times. -/
def Tokenizer.pulls (h : Host α η υ ω) (p : Place υ ω)
    (report : Error → Lexer α η → ω → Lexer α η × ω) (limit : Nat) :
    (n : Nat) → Lexer α η → ω → List (Pulled υ) × Lexer α η × ω
  | 0, lx, world => ([], lx, world)
  | n + 1, lx, world =>
    let (pulled, lx, world) := Tokenizer.next h p report limit lx world
    let (more, lx, world) := Tokenizer.pulls h p report limit n lx world
    (pulled :: more, lx, world)

/-- What a tokenizer hands out at the `i`th request, counted from 0, if it has the tokens
`tokens`. -/
def Pulled.nth (tokens : List (Token υ)) (i : Nat) : Pulled υ := (tokens[i]?).elim .ended .token

/-- The errors of a scan: one or none. -/
def Lexer.Outcome.errors : Outcome → List Error
  | .failed e => [e]
  | _ => []

/-! ## Tokens of a step -/

/-- **A step appends to the list of tokens**, and only a step that goes on does so. -/
theorem Lexer.pushed_step (actions : Actions α η υ ω) (inner : Host α η υ ω) (lx : Lexer α η)
    (world : ω × List (Token υ)) :
    world.2 <+: (lx.step (pushing actions inner) world).2.2.2 ∧
      ((lx.step (pushing actions inner) world).1 ≠ .more →
        (lx.step (pushing actions inner) world).2.2.2 = world.2) := by
  rcases haim : lx.aim with ⟨_ | p, lx'⟩
  next t n w =>
    cases hkeeps : w.keeps n with
    | false =>
      rw [step_broken _ world haim hkeeps]
      exact ⟨List.prefix_rfl, fun _ => rfl⟩
    | true =>
      rw [step_take _ world haim hkeeps rfl]
      unfold runAction
      cases t.action with
      | none => exact ⟨List.prefix_rfl, fun _ => rfl⟩
      | some a =>
        simp only
        cases effect _ _ _ with
        | nothing => exact ⟨List.prefix_rfl, fun _ => rfl⟩
        | failed e => exact ⟨List.prefix_rfl, fun _ => rfl⟩
        | token handler t => exact ⟨List.prefix_append _ _, fun h => absurd rfl h⟩
  · rw [step_stop _ world haim]
    exact ⟨List.prefix_rfl, fun _ => rfl⟩

theorem Lexer.pushed_lex (actions : Actions α η υ ω) (inner : Host α η υ ω) (limit : Nat)
    (lx : Lexer α η) (world : ω × List (Token υ)) :
    world.2 <+: (lx.lex (pushing actions inner) limit world).2.2.2 := by
  induction limit generalizing lx world with
  | zero => exact List.prefix_rfl
  | succ limit ih =>
    have hstep := (lx.pushed_step actions inner world).1
    rcases hp : lx.step (pushing actions inner) world with ⟨progress, lx', world'⟩
    rw [hp] at hstep
    by_cases hmore : progress = .more
    · subst hmore
      rw [lex_more hp]
      exact hstep.trans (ih lx' world')
    · rw [lex_stop hp hmore]
      exact hstep

/-! ## While the scan is going on -/

/-- The lexers of two scans are alike but for their token handlers. -/
def Likeness.handled (handler handler' : η) : Likeness η where
  name := Eq
  handler a b := a = some handler ∧ b = some handler'
  input := Eq
  handler_isSome := by
    rintro a b ⟨rfl, rfl⟩
    rfl

/-- The list has what was handed out, followed by what is in the queue, and nothing was reported. -/
structure Feeding.Follows (given : List (Token υ)) (pushed : ω × List (Token υ))
    (world : Feeding υ ω) : Prop where
  own : world.own = pushed.1
  tokens : pushed.2 = given ++ world.tokenizer.pending
  running : world.tokenizer.stopped = false
  reported : world.reported = []

/-- A request that does not replace the token handler. -/
def Request.keepsHandler : Request α η → Prop
  | .setting s => s.handler? = none
  | _ => True

theorem Likeness.handled_admits {handler handler' : η} (r : Request α η) (hr : r.keepsHandler) :
    (Likeness.handled handler handler').Admits r := by
  refine Likeness.admits_of ?_ fun s _ => ⟨rfl, rfl⟩
  rintro s rfl a b hab
  rw [show s.handler? = none from hr]
  exact hab

section

variable {actions : Actions α η υ ω} {inner : Host α η υ ω}

/-- The two hosts do alike, whatever was handed out before. -/
theorem pushing_alike
    (hactions : ∀ a c world, (actions a c world).Within Eq Request.keepsHandler False)
    (handler handler' : η) (given : List (Token υ)) :
    (pushing actions inner).Alike (.handled handler handler') (Feeding.Follows given)
      (pulling actions inner) where
  act := by
    intro c c' lx lx' pushed world hc hn hl hf a
    obtain rfl := Context.eq_of_unnamed hc hn
    have hm : Matched (.handled handler handler') Eq ((actions a c pushed.1).on inner lx)
        ((actions a c pushed.1).on inner lx') :=
      Client.on_alike (fun r hr => Likeness.handled_admits r hr) (fun hfalse => hfalse.elim)
        (hactions a c pushed.1) hl
    have hpulled : (pulling actions inner).act a c lx' world =
        (((actions a c pushed.1).on inner lx').1, ((actions a c pushed.1).on inner lx').2.1,
          { world with own := ((actions a c pushed.1).on inner lx').2.2 }) := by
      rw [← hf.own]
      rfl
    rw [hpulled]
    exact ⟨hm.result, hm.lexer, hm.world.symm, hf.tokens, hf.running, hf.reported⟩
  deliver := by
    intro _ _ lx lx' pushed world _ _ hl hf t
    refine ⟨hl, hf.own, ?_, hf.running, hf.reported⟩
    show pushed.2 ++ [t] = given ++ (world.tokenizer.pending ++ [t])
    rw [hf.tokens, List.append_assoc]

/-- The scan is going on: there is one that pushes, with at most `limit` steps to go, which comes to
`outcome` and to all of the `tokens`. The tokenizer has handed out `given` of them. -/
def Feeding.Live (actions : Actions α η υ ω) (inner : Host α η υ ω) (handler handler' : η)
    (limit : Nat) (outcome : Outcome) (tokens given : List (Token υ)) (lx' : Lexer α η)
    (world : Feeding υ ω) : Prop :=
  ∃ (lx : Lexer α η) (pushed : ω × List (Token υ)), lx.Alike (.handled handler handler') lx' ∧
    Feeding.Follows given pushed world ∧ (lx.lex (pushing actions inner) limit pushed).1 = outcome ∧
    (lx.lex (pushing actions inner) limit pushed).2.2.2 = tokens

/-- The scan is over, all tokens are handed out, and its error was reported. -/
structure Feeding.Over (outcome : Outcome) (world : Feeding υ ω) : Prop where
  stopped : world.tokenizer.stopped = true
  pending : world.tokenizer.pending = []
  reported : world.reported = outcome.errors

variable {handler handler' : η} {outcome : Outcome} {tokens given : List (Token υ)}
  {f : Error → Lexer α η → Lexer α η}

theorem fill_of_pending {enough : Nat} {lx : Lexer α η} {world : Feeding υ ω}
    (h : world.tokenizer.pending ≠ [] ∨ world.tokenizer.stopped = true) :
    Tokenizer.fill (pulling actions inner) Feeding.place (Feeding.report f) (enough + 1) lx world =
      (none, lx, world) := by
  rw [Tokenizer.fill]
  obtain h | h := h
  · simp [h]
  · simp [h]

/-- **A step while the scan is going on**, with nothing in the queue: it is the next step of the
scan that pushes, or the last one, and then there are no more tokens. -/
theorem step_live (hactions : ∀ a c world, (actions a c world).Within Eq Request.keepsHandler False)
    {limit : Nat} {lx' : Lexer α η} {world : Feeding υ ω}
    (hlive : Feeding.Live actions inner handler handler' (limit + 1) outcome tokens given lx' world)
    (hpending : world.tokenizer.pending = []) :
    ∃ progress lx₁ world₁, lx'.step (pulling actions inner) world = (progress, lx₁, world₁) ∧
      world₁.tokenizer.stopped = false ∧
      if progress = .more then
        Feeding.Live actions inner handler handler' limit outcome tokens given lx₁ world₁
      else progress.outcome = outcome ∧ world₁.tokenizer.pending = [] ∧ world₁.reported = [] ∧
        given = tokens := by
  obtain ⟨lx, pushed, hl, hf, houtcome, htokens⟩ := hlive
  have hhosts : (pushing actions inner).Alike (.handled handler handler') (Feeding.Follows given)
      (pulling actions inner) := pushing_alike hactions handler handler' given
  obtain ⟨⟨hprogress, hlx, hworld⟩, -⟩ := hl.step (Likeness.readsBy_eq rfl) hhosts hf
  have hquiet := (lx.pushed_step actions inner pushed).2
  rcases hleft : lx.step (pushing actions inner) pushed with ⟨progress, lx₁, pushed₁⟩
  rcases hright : lx'.step (pulling actions inner) world with ⟨progress', lx₁', world₁⟩
  rw [hleft] at hprogress hlx hworld hquiet
  rw [hright] at hprogress hlx hworld
  cases hprogress
  refine ⟨progress, lx₁', world₁, rfl, hworld.running, ?_⟩
  split
  next hmore =>
    subst hmore
    rw [lex_more hleft] at houtcome htokens
    exact ⟨lx₁, pushed₁, hlx, hworld, houtcome, htokens⟩
  next hstop =>
    rw [lex_stop hleft hstop] at houtcome htokens
    -- a step that does not go on leaves the list as it is, and the queue empty with it
    have hlist := hquiet hstop
    have hsame := hworld.tokens.symm.trans hlist
    rw [hf.tokens, hpending, List.append_nil] at hsame
    rw [hf.tokens, hpending, List.append_nil] at hlist
    exact ⟨houtcome, List.append_right_eq_self.mp hsame, hworld.reported, hlist.symm.trans htokens⟩

/-- **Filling the queue.** Steps are made until there is a token, or the scan is over. The induction
is on the steps that the scan that pushes has to go. -/
theorem fill_live (hactions : ∀ a c world, (actions a c world).Within Eq Request.keepsHandler False)
    (hreturns : outcome = .finished ∨ ∃ e, outcome = .failed e) {limit enough : Nat}
    (henough : limit < enough) {lx' : Lexer α η} {world : Feeding υ ω}
    (hlive : Feeding.Live actions inner handler handler' limit outcome tokens given lx' world) :
    ∃ lx₁ world₁,
      Tokenizer.fill (pulling actions inner) Feeding.place (Feeding.report f) enough lx' world =
        (none, lx₁, world₁) ∧
      ((∃ limit' ≤ limit,
          Feeding.Live actions inner handler handler' limit' outcome tokens given lx₁ world₁ ∧
            world₁.tokenizer.pending ≠ []) ∨
        (world₁.Over outcome ∧ given = tokens)) := by
  induction limit generalizing enough lx' world with
  | zero =>
    obtain ⟨lx, pushed, -, -, houtcome, -⟩ := hlive
    obtain rfl | ⟨e, rfl⟩ := hreturns <;> cases houtcome
  | succ limit ih =>
    obtain ⟨enough, rfl⟩ := Nat.exists_eq_succ_of_ne_zero (Nat.ne_of_gt (Nat.zero_lt_of_lt henough))
    by_cases hpending : world.tokenizer.pending = []
    swap
    · exact ⟨lx', world, fill_of_pending (.inl hpending), .inl ⟨_, le_rfl, hlive, hpending⟩⟩
    obtain ⟨progress, lx₁, world₁, hstep, hrunning, hnext⟩ := step_live hactions hlive hpending
    have hopen : world.tokenizer.stopped = false := by
      obtain ⟨_, _, -, hf, -⟩ := hlive
      exact hf.running
    rw [Tokenizer.fill]
    simp only [Feeding.place_get, Feeding.place_set, hpending, hopen, List.isEmpty_nil,
      Bool.not_true, Bool.or_self, Bool.false_eq_true, if_false, hstep]
    obtain ⟨enough, rfl⟩ := Nat.exists_eq_succ_of_ne_zero (show enough ≠ 0 by omega)
    cases progress with
    | more =>
      have hsame :
        ({ world₁ with tokenizer := { world₁.tokenizer with stopped := false } } : Feeding υ ω) =
          world₁ := by rw [← hrunning]
      simp only [hsame]
      obtain ⟨lx₂, world₂, hfill, hcases⟩ := ih (Nat.lt_of_succ_lt_succ henough) hnext
      refine ⟨lx₂, world₂, hfill, hcases.imp_left ?_⟩
      rintro ⟨limit', hle, hrest⟩
      exact ⟨limit', Nat.le_succ_of_le hle, hrest⟩
    | done =>
      obtain ⟨rfl, hempty, hquiet, hgiven⟩ := hnext
      exact ⟨_, _, fill_of_pending (.inr rfl), .inr ⟨⟨rfl, hempty, hquiet⟩, hgiven⟩⟩
    | failed e =>
      obtain ⟨rfl, hempty, hquiet, hgiven⟩ := hnext
      exact ⟨_, _, fill_of_pending (.inr rfl),
        .inr ⟨⟨rfl, hempty, congrArg (· ++ [e]) hquiet⟩, hgiven⟩⟩
    | broken =>
      obtain ⟨rfl, -⟩ := hnext
      obtain hreturns | ⟨e, hreturns⟩ := hreturns <;> cases hreturns

/-- **One request to a tokenizer**, while the scan is going on: the next token of the list, or none
if there is no more. -/
theorem next_live (hactions : ∀ a c world, (actions a c world).Within Eq Request.keepsHandler False)
    (hreturns : outcome = .finished ∨ ∃ e, outcome = .failed e) {limit enough : Nat}
    (henough : limit < enough) {lx' : Lexer α η} {world : Feeding υ ω}
    (hlive : Feeding.Live actions inner handler handler' limit outcome tokens given lx' world) :
    ∃ pulled lx₁ world₁,
      Tokenizer.next (pulling actions inner) Feeding.place (Feeding.report f) enough lx' world =
        (pulled, lx₁, world₁) ∧
      ((∃ t, pulled = .token t ∧ given ++ [t] <+: tokens ∧ ∃ limit' ≤ limit,
          Feeding.Live actions inner handler handler' limit' outcome tokens (given ++ [t])
            lx₁ world₁) ∨
        (pulled = .ended ∧ world₁.Over outcome ∧ given = tokens)) := by
  obtain ⟨lx₁, world₁, hfill, hcases⟩ := fill_live (f := f) hactions hreturns henough hlive
  unfold Tokenizer.next
  simp only [hfill]
  obtain ⟨limit', hle, ⟨lx, pushed, hl, hf, houtcome, htokens⟩, hne⟩ | ⟨hover, hgiven⟩ := hcases
  · obtain ⟨t, rest, hpending⟩ := List.exists_cons_of_ne_nil hne
    simp only [Feeding.place_get, Feeding.place_set, hpending]
    have hlist : pushed.2 = (given ++ [t]) ++ rest := by
      rw [hf.tokens, hpending, List.append_assoc]
      rfl
    refine ⟨_, _, _, rfl, .inl ⟨t, rfl, ?_, limit', hle, lx, pushed, hl, ?_, houtcome, htokens⟩⟩
    · have hpushed := lx.pushed_lex actions inner limit' pushed
      rw [htokens, hlist] at hpushed
      exact (List.prefix_append _ _).trans hpushed
    · exact ⟨hf.own, hlist, hf.running, hf.reported⟩
  · simp only [Feeding.place_get, hover.pending]
    exact ⟨_, _, _, rfl, .inr ⟨rfl, hover, hgiven⟩⟩

/-- When the scan is over, a tokenizer says so forever. -/
theorem pulls_over {world : Feeding υ ω} (hover : world.Over outcome) (enough n : Nat)
    (lx : Lexer α η) :
    (Tokenizer.pulls (pulling actions inner) Feeding.place (Feeding.report f) (enough + 1) n lx
        world).1 = List.replicate n .ended ∧
      (Tokenizer.pulls (pulling actions inner) Feeding.place (Feeding.report f) (enough + 1) n lx
        world).2.2 = world := by
  induction n generalizing lx with
  | zero => exact ⟨rfl, rfl⟩
  | succ n ih =>
    have hnext :
        Tokenizer.next (pulling actions inner) Feeding.place (Feeding.report f) (enough + 1) lx
          world = (.ended, lx.note .debug .tokensEnded, world) := by
      unfold Tokenizer.next
      simp only [fill_of_pending (.inr hover.stopped), Feeding.place_get, hover.pending]
    obtain ⟨hpulled, hworld⟩ := ih (lx.note .debug .tokensEnded)
    rw [Tokenizer.pulls]
    simp only [hnext, hpulled, hworld, List.replicate_succ, and_self]

/-- What a tokenizer hands out while the scan is going on. -/
theorem pulls_live
    (hactions : ∀ a c world, (actions a c world).Within Eq Request.keepsHandler False)
    (hreturns : outcome = .finished ∨ ∃ e, outcome = .failed e) {limit enough : Nat}
    (henough : limit < enough) (n : Nat) {lx' : Lexer α η} {world : Feeding υ ω}
    (hlive : Feeding.Live actions inner handler handler' limit outcome tokens given lx' world) :
    (Tokenizer.pulls (pulling actions inner) Feeding.place (Feeding.report f) enough n lx'
        world).1 = (List.range n).map (fun i => Pulled.nth tokens (given.length + i)) ∧
      (Tokenizer.pulls (pulling actions inner) Feeding.place (Feeding.report f) enough n lx'
        world).2.2.reported = if given.length + n ≤ tokens.length then [] else outcome.errors := by
  induction n generalizing limit given lx' world with
  | zero =>
    obtain ⟨lx, pushed, -, hf, -, htokens⟩ := hlive
    have hpushed := (lx.pushed_lex actions inner limit pushed).length_le
    rw [htokens, hf.tokens, List.length_append] at hpushed
    rw [if_pos (by omega)]
    exact ⟨rfl, hf.reported⟩
  | succ n ih =>
    obtain ⟨pulled, lx₁, world₁, hnext, hcases⟩ :=
      next_live (f := f) hactions hreturns henough hlive
    rw [Tokenizer.pulls, List.range_succ_eq_map, List.map_cons, List.map_map]
    simp only [hnext]
    obtain ⟨t, rfl, ⟨rest, rfl⟩, limit', hle, hlive'⟩ | ⟨rfl, hover, rfl⟩ := hcases
    · obtain ⟨hpulled, hreported⟩ := ih (Nat.lt_of_le_of_lt hle henough) hlive'
      have hlength (i : Nat) : (given ++ [t]).length + i = given.length + (i + 1) := by
        rw [List.length_append, List.length_singleton]
        omega
      rw [hpulled, hreported]
      simp only [hlength]
      refine ⟨congrArg (· :: _) ?_, trivial⟩
      simp [Pulled.nth]
    · obtain ⟨enough, rfl⟩ := Nat.exists_eq_succ_of_ne_zero (show enough ≠ 0 by omega)
      have hnone (i : Nat) : Pulled.nth given (given.length + i) = .ended := by simp [Pulled.nth]
      rw [(pulls_over hover enough n lx₁).1, (pulls_over hover enough n lx₁).2, hover.reported,
        if_neg (by omega)]
      simp only [hnone, Function.comp_def, List.map_const', List.length_range, and_self]

end

/-- **Pulling and pushing agree.** Let the lexer `lx` get the source `s` and a token handler, and
let the scan return. A tokenizer on the same lexer, with actions that neither scan nor replace the
token handler, hands out just the tokens that the scan hands to the handler, and then says forever
that the input has ended. Its error handler, which may do anything to the lexer, gets the error of
the scan when the last token has been handed out, and nothing else. -/
theorem tokenizer_pulls_pushed {settings : List (Setting α η)} {lx : Lexer α η}
    (hist : History settings lx) (s : Source) {actions : Actions α η υ ω}
    (hactions : ∀ a c world, (actions a c world).Within Eq Request.keepsHandler False)
    (inner : Host α η υ ω) (handler handler' : η) (own : ω) (f : Error → Lexer α η → Lexer α η)
    {limit : Nat} {outcome : Outcome} {lx₁ : Lexer α η} {own₁ : ω} {tokens : List (Token υ)}
    (hlex : { lx.attachSource s with handler := some handler }.lex (pushing actions inner) limit
      (own, []) = (outcome, lx₁, own₁, tokens))
    (hreturns : outcome = .finished ∨ ∃ e, outcome = .failed e) {enough : Nat}
    (henough : limit < enough) (n : Nat) :
    (Tokenizer.pulls (pulling actions inner) Feeding.place (Feeding.report f) enough n
        { lx.attachSource s with handler := some handler' } { own := own }).1 =
        (List.range n).map (Pulled.nth tokens) ∧
      (Tokenizer.pulls (pulling actions inner) Feeding.place (Feeding.report f) enough n
        { lx.attachSource s with handler := some handler' } { own := own }).2.2.reported =
        if n ≤ tokens.length then [] else outcome.errors := by
  have hattached := hist.attach s
  have hl : ({ lx.attachSource s with handler := some handler } : Lexer α η).Alike
      (.handled handler handler') { lx.attachSource s with handler := some handler' } :=
    { book := rfl, context := rfl, phase := rfl, name := rfl, handler := ⟨rfl, rfl⟩, input := rfl
      left := (hattached.register (.handler (some handler))).upToDate
      right := (hattached.register (.handler (some handler'))).upToDate }
  have hlive : Feeding.Live actions inner handler handler' limit outcome tokens []
      { lx.attachSource s with handler := some handler' } { own := own } :=
    ⟨_, (own, []), hl, ⟨rfl, rfl, rfl, rfl⟩, by rw [hlex], by rw [hlex]⟩
  have hpulls := pulls_live (f := f) hactions hreturns henough n hlive
  simpa only [List.length_nil, Nat.zero_add] using hpulls

/-- A lexer whose rules emit a token for each letter a, and drop each letter b. -/
def letters : List (Setting Nat Unit) := [.rule "a" (some 1), .rule "b" (some 2), .token "A"]

/-- Action 1 emits a token, any other one skips the match. They count their calls. -/
def lettersActions : Actions Nat Unit Unit Nat := fun a _ n =>
  .done (if a = 1 then { token := "A" } else { signal := .skip }) (n + 1)

/-- Steps made by actions are not served. -/
def unserved : Host Nat Unit Unit Nat := ⟨fun _ _ lx n => ({}, lx, n), fun _ _ lx n => (lx, n)⟩

/-- The scan of a text that ends with a letter for which there is no rule. -/
def lettersScan : Outcome × Lexer Nat Unit × Nat × List (Token Unit) :=
  { (Lexer.configured letters).attachSource (.ofText "abac") with handler := some () }.lex
    (pushing lettersActions unserved) 5 (0, [])

set_option maxRecDepth 10000 in
theorem tokenizer_pulls_pushed_letters :
    lettersScan.2.2.2.map (·.text) = ["a", "a"] ∧
      (Tokenizer.pulls (pulling lettersActions unserved) Feeding.place
        (Feeding.report fun _ lx => lx) 6 4
        { (Lexer.configured letters).attachSource (.ofText "abac") with handler := some () }
        { own := 0 }).1 =
        (List.range 4).map (Pulled.nth lettersScan.2.2.2) ∧
      (Tokenizer.pulls (pulling lettersActions unserved) Feeding.place
        (Feeding.report fun _ lx => lx) 6 4
        { (Lexer.configured letters).attachSource (.ofText "abac") with handler := some () }
        { own := 0 }).2.2.reported = [.noMatch ⟨1, "initial", 99, "c"⟩] := by
  have htexts : lettersScan.2.2.2.map (·.text) = ["a", "a"] := by decide +kernel
  have hfailed : lettersScan.1 = .failed (.noMatch ⟨1, "initial", 99, "c"⟩) := by decide +kernel
  have hlength : lettersScan.2.2.2.length = 2 := by
    rw [← List.length_map (f := fun t : Token Unit => t.text), htexts]
    rfl
  have hlex :
    { (Lexer.configured letters).attachSource (.ofText "abac") with handler := some () }.lex
      (pushing lettersActions unserved) 5 (0, []) =
        (lettersScan.1, lettersScan.2.1, lettersScan.2.2.1, lettersScan.2.2.2) := by
    rw [← lettersScan]
  have hactions : ∀ a c n, (lettersActions a c n).Within Eq Request.keepsHandler False :=
    fun _ _ _ => trivial
  obtain ⟨hpulled, hreported⟩ :=
    tokenizer_pulls_pushed (History.configured letters) (.ofText "abac") hactions unserved () () 0
      (fun _ lx => lx) hlex (.inr ⟨_, hfailed⟩) (show 5 < 6 by decide) 4
  rw [hlength, hfailed] at hreported
  exact ⟨htexts, hpulled, hreported⟩

end Munch
