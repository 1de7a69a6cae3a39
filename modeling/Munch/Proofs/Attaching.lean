import Munch.Proofs.ScanLikeness

/-!
# Attaching a source starts afresh

Whatever happened to a lexer before, once a source is attached only what was registered counts. No
caller can tell the lexer from a new one on which the same registration calls were made in the same
order.

* `Lexer.Indistinguishable lx lx'`: all callers, with all actions and handlers that are callers
  themselves, fare the same on `lx` and `lx'`.

Results:
* `History.book_eq`: what is registered in a lexer is what its registration calls leave in a new
  one.
* `Lexer.Alike.indistinguishable`: lexers that differ at most in the presentation of their input are
  indistinguishable.
* **`attach_forgets_history`**: attaching a source makes the scan independent of history, from
  within an action, too; a source that cannot be attached changes nothing.
-/

namespace Munch

open Lexer

variable {α η υ ω β : Type}

/-! ## What is registered -/

/-- **What is registered in a lexer is what its registration calls leave in a new one.** -/
theorem History.book_eq {settings : List (Setting α η)} {lx : Lexer α η} (h : History settings lx) :
    lx.book = (Lexer.configured settings).book ∧
      lx.handler = (Lexer.configured settings).handler := by
  induction h with
  | new => exact ⟨rfl, rfl⟩
  | @register settings lx h s ih =>
    rw [show Lexer.configured (settings ++ [s]) = s.apply (Lexer.configured settings) from
      List.foldl_append]
    rw [(Setting.apply_book lx s).1, (Setting.apply_book (Lexer.configured settings) s).1, ih.1,
      Setting.apply_handler, Setting.apply_handler, ih.2]
    exact ⟨rfl, rfl⟩
  | begin _ state hb ih =>
    rw [begin_ok hb]
    exact ih
  | attach _ s ih => rwa [book_attachSource, (attached_attachSource _ s).handler]
  | fail _ e ih => exact ih
  | note _ level n ih => exact ih
  | stop h haim ih =>
    have hl := looks_of_aim h.upToDate.onto haim
    rwa [hl.book, hl.kept.handler]
  | broken h haim ih | dispatched h haim _ ih =>
    have hl := looks_of_aim h.upToDate.onto haim
    rw [← hl.book, ← hl.kept.handler] at ih
    exact ih
  | resumed _ _ ih => exact ih

/-! ## Indistinguishable lexers -/

/-- All callers fare the same on the two lexers: they come to the same results and worlds, and the
lexers show the same afterwards. So do whole scans, and the matches and tokens on the way are the
same. -/
structure Lexer.Indistinguishable (lx lx' : Lexer α η) : Prop where
  client : ∀ {υ ω β : Type} (staff : Staff α η υ ω) (depth : Nat) (p : Client α η ω β),
    (p.on (staff.host depth) lx).1 = (p.on (staff.host depth) lx').1 ∧
      (p.on (staff.host depth) lx).2.2 = (p.on (staff.host depth) lx').2.2 ∧
      (p.on (staff.host depth) lx).2.1.view = (p.on (staff.host depth) lx').2.1.view
  scan : ∀ {υ ω : Type} (staff : Staff α η υ ω) (depth : Nat) (interrupted : ω → Option Error)
    (limit : Nat) (world : ω),
    (lx.lexUnless (staff.host depth) interrupted limit world).1 =
        (lx'.lexUnless (staff.host depth) interrupted limit world).1 ∧
      (lx.lexUnless (staff.host depth) interrupted limit world).2.2 =
        (lx'.lexUnless (staff.host depth) interrupted limit world).2.2 ∧
      (lx.lexUnless (staff.host depth) interrupted limit world).2.1.view =
        (lx'.lexUnless (staff.host depth) interrupted limit world).2.1.view ∧
      lx.lexEvents (staff.host depth) .silent interrupted limit world =
        lx'.lexEvents (staff.host depth) .silent interrupted limit world

section

variable {k : Likeness η} {V : Window → Window → Prop}

theorem Lexer.Alike.view (hk : k.Faithful V) {lx lx' : Lexer α η} (h : lx.Alike k lx') :
    lx.view = lx'.view := by
  have hname : lx.context.input = lx'.context.input := hk.name ▸ h.name
  unfold Lexer.view
  rw [h.book, h.phase, Context.eq_of_unnamed h.context hname]

/-- Any staff does alike on lexers that differ at most in the presentation of their input. -/
theorem Staff.host_alike (hk : k.Faithful V) (staff : Staff α η υ ω) (depth : Nat) :
    (staff.host depth).Alike k Eq (staff.host depth) := by
  induction depth with
  | zero =>
    constructor
    · rintro c c' lx lx' world _ - - hl rfl a
      exact ⟨rfl, hl, rfl⟩
    · rintro handler handler' lx lx' world _ - - hl rfl t
      exact ⟨hl, rfl⟩
  | succ depth ih =>
    exact Staff.serve_alike hk.handler (fun r _ => hk.admits r) (hk.name.symm ▸ staff.within_all)
      fun _ _ _ hl _ => (hl.step hk.toReadsBy ih rfl).1

/-- **Lexers that differ at most in the presentation of their input are indistinguishable.** -/
theorem Lexer.Alike.indistinguishable (hk : k.Faithful V) {lx lx' : Lexer α η}
    (h : lx.Alike k lx') : lx.Indistinguishable lx' where
  client staff depth p := by
    have hm := Client.on_alike (fun r _ => hk.admits r)
      (fun _ _ _ hl _ => (hl.step hk.toReadsBy (staff.host_alike hk depth) rfl).1)
      (hk.name.symm ▸ p.within_all) h
    exact ⟨hm.result, hm.world, hm.lexer.view hk⟩
  scan staff depth interrupted limit world := by
    obtain ⟨hm, hevents⟩ :=
      h.lexUnless hk.toReadsBy (staff.host_alike hk depth)
        (fun hw => congrArg interrupted hw) limit rfl
    refine ⟨hm.result, hm.world, hm.lexer.view hk, ?_⟩
    rw [hk.name] at hevents
    rw [← List.forall₂_eq_eq_eq]
    refine hevents.imp fun e e' he => ?_
    cases he with
    | same => rfl
    | dispatched t hc hn => rw [Context.eq_of_unnamed hc hn]

end

/-! ## Attaching -/

/-- A lexer with a source is like a new one with the same registration calls and that source. -/
theorem History.alike_attached {settings : List (Setting α η)} {lx : Lexer α η}
    (h : History settings lx) (s : Source) :
    (lx.attachSource s).Alike (.same η) ((Lexer.configured settings).attachSource s) := by
  obtain ⟨hbook, hhandler⟩ := h.book_eq
  have ha := attached_attachSource lx s
  have ha' := attached_attachSource (Lexer.configured settings) s
  exact
    { book := by rw [book_attachSource, book_attachSource, hbook]
      context := by rw [ha.context, ha'.context]
      phase := by rw [ha.phase, ha'.phase]
      name := by
        rw [ha.context, ha'.context]
        exact rfl
      handler := by
        rw [ha.handler, ha'.handler]
        exact hhandler
      input := by
        rw [Lexer.input, Lexer.input, ha.window, ha.bytes, ha'.window, ha'.bytes]
        exact rfl
      left := (h.attach s).upToDate
      right := ((History.configured settings).attach s).upToDate }

/-- If the handler does not touch the lexer, it is left as the action left it. -/
theorem Lexer.runAction_lexer {h : Host α η υ ω} {a : α} {lx lx₂ : Lexer α η} {world : ω}
    (hact : (h.act a lx.context lx world).2.1 = lx₂)
    (hdeliver : ∀ handler t world, (h.deliver handler t lx₂ world).1 = lx₂) :
    (lx.runAction h (some a) world).2.1 = lx₂ := by
  unfold Lexer.runAction
  simp only
  cases Lexer.effect _ _ _ with
  | nothing => exact hact
  | failed e => exact hact
  | token handler t =>
    simp only [hact]
    exact hdeliver _ _ _

/-- A step that goes on leaves the lexer as its action left it, if that was not in the middle of the
dispatch and the handler does not touch it. -/
theorem Lexer.step_acted {h : Host α η υ ω} {world : ω} {lx lx₁ lx₂ : Lexer α η}
    {t : Taker α} {n : Nat} {w : Window} {a : α} (haim : lx.aim = (.take t n w, lx₁))
    (haction : t.action = some a)
    (hact : (h.act a ({ lx₁ with phase := .dispatching }.consumed n w).context
      ({ lx₁ with phase := .dispatching }.consumed n w) world).2.1 = lx₂)
    (hdeliver : ∀ handler t world, (h.deliver handler t lx₂ world).1 = lx₂)
    (hphase : lx₂.phase ≠ .dispatching) (hmore : (lx.step h world).1 = .more) :
    (lx.step h world).2.1 = lx₂ := by
  cases hkeeps : w.keeps n with
  | false =>
    rw [step_broken h world haim hkeeps] at hmore
    cases hmore
  | true =>
    have hacted := runAction_lexer hact hdeliver
    rw [step_take h world haim hkeeps rfl, haction, hacted] at hmore ⊢
    unfold Lexer.concluded at hmore ⊢
    split at hmore
    · cases hmore
    · simp only [if_neg hphase]

/-- **Attaching a source makes the scan independent of history.** Whatever happened to the lexer
`lx`, when the source `s` is attached nobody can tell it from a new lexer with the same registration
calls and that source. So it is, after the step, if the last call of an action attaches the source.
What is no source cannot be attached, and changes nothing. -/
theorem attach_forgets_history {settings : List (Setting α η)} {lx : Lexer α η}
    (hist : History settings lx) (s : Source) :
    (lx.attachSource s).Indistinguishable ((Lexer.configured settings).attachSource s) ∧
      (∀ {υ ω : Type} (h : Host α η υ ω) (world : ω) {lx₀ lx₁ : Lexer α η} {t : Taker α} {n : Nat}
        {w : Window} {a : α}, lx₀.aim = (.take t n w, lx₁) → t.action = some a →
        (h.act a ({ lx₁ with phase := .dispatching }.consumed n w).context
          ({ lx₁ with phase := .dispatching }.consumed n w) world).2.1 = lx.attachSource s →
        (∀ handler t world, (h.deliver handler t (lx.attachSource s) world).1 = lx.attachSource s) →
        (lx₀.step h world).1 = .more →
        (lx₀.step h world).2.1.Indistinguishable ((Lexer.configured settings).attachSource s)) ∧
      ∀ what, (Request.attach (.unusable what)).on lx = (some (.notASource what), lx) := by
  have hsame := (hist.alike_attached s).indistinguishable (Likeness.faithful_same η)
  refine ⟨hsame, ?_, fun what => rfl⟩
  intro υ ω h world lx₀ lx₁ t n w a haim haction hact hdeliver hmore
  have hphase : (lx.attachSource s).phase ≠ .dispatching := by
    rw [(attached_attachSource lx s).phase]
    rintro ⟨⟩
  rwa [step_acted haim haction hact hdeliver hphase hmore]

/-- Registration calls: a rule over bytes whose action emits a token. -/
def emitting : List (Setting Nat Unit) :=
  [.option "dfa" true, .rule "ab" (some 1), .token "T", .handler (some ())]

/-- Actions that emit a token. -/
def emitter : Host Nat Unit Unit Unit :=
  ⟨fun _ _ lx world => ({ token := "T" }, lx, world), fun _ _ lx world => (lx, world)⟩

/-- Actions that attach a text, and count. -/
def reattacher : Host Nat Unit Unit Nat :=
  ⟨fun _ _ lx n => ({}, lx.attachSource (.ofText "aba"), n + 1), fun _ _ lx n => (lx, n)⟩

/-- A lexer whose scan failed behind its first match, and which was then switched to matching
runes. -/
def failedScan : Lexer Nat Unit :=
  (Setting.option "dfa" false).apply
    (((Lexer.configured emitting).attachSource (.ofText "abx")).lex emitter 5 ()).2.1

theorem history_failedScan : History (emitting ++ [.option "dfa" false]) failedScan := by
  have hkeeps : emitter.Keeps (History emitting) := ⟨fun hist _ _ _ => hist, fun hist _ _ _ => hist⟩
  have hattached := (History.configured emitting).attach (.ofText "abx")
  have hscanned := (History.steady emitting).lexUnless hkeeps (fun _ => none) 5 hattached ()
  rw [failedScan, Lexer.lex]
  exact hscanned.register (.option "dfa" false)

set_option maxRecDepth 10000 in
theorem attach_forgets_history_failed :
    failedScan.phase = .failed (.noMatch ⟨1, "initial", 120, "x"⟩) ∧
      (failedScan.attachSource (.ofText "aba")).Indistinguishable
        ((Lexer.configured (emitting ++ [.option "dfa" false])).attachSource (.ofText "aba")) ∧
      (((Lexer.configured emitting).attachSource (.ofText "abx")).step
        reattacher 0).2.1.Indistinguishable
          ((Lexer.configured emitting).attachSource (.ofText "aba")) := by
  refine ⟨by decide +kernel, (attach_forgets_history history_failedScan _).1, ?_⟩
  have hmore :
      (((Lexer.configured emitting).attachSource (.ofText "abx")).step reattacher 0).1 = .more := by
    decide +kernel
  have hworld :
      (((Lexer.configured emitting).attachSource (.ofText "abx")).step reattacher 0).2.2 = 1 := by
    decide +kernel
  have hist := (History.configured emitting).attach (.ofText "abx")
  generalize (Lexer.configured emitting).attachSource (.ofText "abx") = lx at hmore hworld hist ⊢
  rcases haim : lx.aim with ⟨_ | p, lx₁⟩
  next t n w =>
    cases hkeeps : w.keeps n with
    | false =>
      rw [step_broken reattacher 0 haim hkeeps] at hmore
      cases hmore
    | true =>
      cases haction : t.action with
      | none =>
        rw [step_take reattacher 0 haim hkeeps rfl, haction] at hworld
        cases hworld
      | some a =>
        exact (attach_forgets_history (hist.dispatched haim hkeeps) _).2.1 reattacher 0 haim
          haction rfl (fun _ _ _ => rfl) hmore
  · rw [step_stop reattacher 0 haim] at hworld
    cases hworld

end Munch
