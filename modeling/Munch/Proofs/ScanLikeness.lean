import Munch.Proofs.ByteSearch
import Munch.Proofs.Likeness
import Munch.Proofs.Presentation

/-!
# Scans that are alike

Lexers that are alike make the same dispatches as long as their input reads alike, if their actions
and handlers do alike what callers may do.

* `Host.Alike`: two hosts do the same to lexers that are alike.
* `Likeness.ReadsBy`, `Likeness.Faithful`: the windows of the lexers show the same runes.

Results:
* `Lexer.Alike.dispatch`: a dispatch leaves lexers alike, if the actions do.
* `Lexer.Alike.aim`: on input that reads alike, lexers that are alike look for the same match.
* `Lexer.Alike.lexUnless`: on input that reads alike, whole scans are alike.
* `Staff.serve_alike`: staff that keeps to what a likeness admits is a host like that.
-/

namespace Munch

open Lexer

variable {α η υ ω ω' : Type}

/-! ## Dispatching -/

/-- The actions and handlers of two hosts do alike. -/
structure Host.Alike (k : Likeness η) (W : ω → ω' → Prop) (h : Host α η υ ω) (h' : Host α η υ ω') :
    Prop where
  act : ∀ {c c' lx lx' world world'}, c.unnamed = c'.unnamed → k.name c.input c'.input →
    lx.Alike k lx' → W world world' → ∀ a, Matched k W (h.act a c lx world) (h'.act a c' lx' world')
  deliver : ∀ {handler handler' lx lx' world world'}, lx.handler = some handler →
    lx'.handler = some handler' → lx.Alike k lx' → W world world' → ∀ t,
      (h.deliver handler t lx world).1.Alike k (h'.deliver handler' t lx' world').1 ∧
        W (h.deliver handler t lx world).2 (h'.deliver handler' t lx' world').2

/-- Two events are the same up to the names of sources. -/
inductive Event.Alike (name : Option Text → Option Text → Prop) : Event α υ → Event α υ → Prop
  | same (e : Event α υ) : Alike name e e
  | dispatched (t : Taker α) {c c' : Context} (hc : c.unnamed = c'.unnamed)
      (hn : name c.input c'.input) : Alike name (.dispatched t c) (.dispatched t c')

theorem Event.alike_self (name : Option Text → Option Text → Prop) (es : List (Event α υ)) :
    List.Forall₂ (Event.Alike name) es es := List.forall₂_same.mpr fun e _ => .same e

theorem Lexer.unnamed_consumed (lx : Lexer α η) (n : Nat) (w : Window) :
    (lx.consumed n w).context.unnamed =
      { state := lx.context.state
        line := lx.context.line + (Text.ofRunes (w.ahead.take n)).newlines
        text := Text.ofRunes (w.ahead.take n)
        span := ⟨w.offset, w.offset + n⟩ } := rfl

namespace Lexer.Alike

variable {k : Likeness η} {W : ω → ω' → Prop} {h : Host α η υ ω} {h' : Host α η υ ω'}
  {lx lx' : Lexer α η} {world : ω} {world' : ω'}

/-- A reply comes to the same on lexers that are alike. -/
theorem effect (hl : Alike k lx lx') {c c' : Context} (hc : c.unnamed = c'.unnamed)
    (reply : Reply υ) :
    (lx.effect c reply = .nothing ∧ lx'.effect c' reply = .nothing) ∨
      (∃ e, lx.effect c reply = .failed e ∧ lx'.effect c' reply = .failed e) ∨
      ∃ handler handler' t, lx.effect c reply = .token handler t ∧
        lx'.effect c' reply = .token handler' t ∧ lx.handler = some handler ∧
        lx'.handler = some handler' := by
  have hline : c.line = c'.line := (congrArg Context.line hc :)
  have htext : c.text = c'.text := (congrArg Context.text hc :)
  have hspan : c.span = c'.span := (congrArg Context.span hc :)
  have hsome := k.handler_isSome hl.handler
  unfold Lexer.effect
  rw [hl.tokens, hline, htext, hspan]
  split
  · exact .inl ⟨rfl, rfl⟩
  · exact .inr (.inl ⟨_, rfl, rfl⟩)
  · split
    · exact .inl ⟨rfl, rfl⟩
    · cases lx'.tokens.find? reply.token with
      | none => exact .inr (.inl ⟨_, rfl, rfl⟩)
      | some tag =>
        cases hhandler : lx.handler with
        | none =>
          rw [hhandler] at hsome
          cases hhandler' : lx'.handler with
          | none => exact .inl ⟨rfl, rfl⟩
          | some handler' =>
            rw [hhandler'] at hsome
            cases hsome
        | some handler =>
          rw [hhandler] at hsome
          cases hhandler' : lx'.handler with
          | none =>
            rw [hhandler'] at hsome
            cases hsome
          | some handler' => exact .inr (.inr ⟨handler, handler', _, rfl, rfl, rfl, rfl⟩)

/-- The action of a match does alike, and what comes of it is alike. -/
theorem runAction (hh : h.Alike k W h') (hl : Alike k lx lx') (hW : W world world')
    (action : Option α) :
    Matched k W (lx.runAction h action world) (lx'.runAction h' action world') ∧
      lx.actionEvents h .silent action world = lx'.actionEvents h' .silent action world' := by
  cases action with
  | none => exact ⟨⟨rfl, hl, hW⟩, rfl⟩
  | some a =>
    obtain ⟨hreply, hlx, hworld⟩ := hh.act hl.context hl.name hl hW a
    unfold Lexer.runAction Lexer.actionEvents
    simp only [Chronicle.silent, List.nil_append]
    rw [← hreply]
    obtain ⟨he, he'⟩ | ⟨e, he, he'⟩ | ⟨handler, handler', t, he, he', hs, hs'⟩ :=
      hlx.effect hl.context (h.act a lx.context lx world).1
    · rw [he, he']
      exact ⟨⟨rfl, hlx, hworld⟩, rfl⟩
    · rw [he, he']
      exact ⟨⟨rfl, hlx, hworld⟩, rfl⟩
    · rw [he, he']
      obtain ⟨hdelivered, hworld'⟩ := hh.deliver hs hs' hlx hworld t
      exact ⟨⟨rfl, hdelivered, hworld'⟩, rfl⟩

theorem concluded (hl : Alike k lx lx') (failure : Option Error) :
    (lx.concluded failure).1 = (lx'.concluded failure).1 ∧
      Alike k (lx.concluded failure).2 (lx'.concluded failure).2 := by
  unfold Lexer.concluded
  cases failure with
  | some e => exact ⟨rfl, hl.fail e⟩
  | none =>
    refine ⟨rfl, ?_⟩
    simp only [← hl.phase]
    split
    · exact hl.setPhase .matching
    · exact hl

/-- Consuming the same runes at the same place leaves lexers alike, if it leaves like inputs. -/
theorem consumed (hl : Alike k lx lx') {w w' : Window} (hw : lx.window = some w)
    (hw' : lx'.window = some w') {n : Nat} (hn : w.keeps n = true) (hn' : w'.keeps n = true)
    (htaken : w.ahead.take n = w'.ahead.take n) (hoffset : w.offset = w'.offset)
    (hinput : k.input (some (w.consume n).2, lx.bytes.text)
      (some (w'.consume n).2, lx'.bytes.text)) : Alike k (lx.consumed n w) (lx'.consumed n w') where
  book := hl.book
  context := by
    rw [unnamed_consumed, unnamed_consumed, hl.state, hl.line, htaken, hoffset]
  phase := hl.phase
  name := hl.name
  handler := hl.handler
  input := hinput
  left := hl.left.imp fun _ hf => hf.consumed hw hn
  right := hl.right.imp fun _ hf => hf.consumed hw' hn'

/-- **A dispatch leaves lexers alike** that are so when the match is consumed. -/
theorem dispatch (hh : h.Alike k W h') (hl : Alike k lx lx') (hW : W world world') {w w' : Window}
    {n : Nat} (hkeeps : w.keeps n = w'.keeps n)
    (hconsumed : w.keeps n = true → Alike k ({ lx with phase := .dispatching }.consumed n w)
      ({ lx' with phase := .dispatching }.consumed n w')) (t : Taker α) :
    Matched k W (Lexer.dispatch h t.action n w lx world)
      (Lexer.dispatch h' t.action n w' lx' world') ∧
      List.Forall₂ (Event.Alike k.name) (dispatchEvents h .silent t n w lx world)
        (dispatchEvents h' .silent t n w' lx' world') := by
  unfold Lexer.dispatch Lexer.dispatchEvents
  by_cases hn : w.keeps n = true
  · have hlx := hconsumed hn
    obtain ⟨⟨hfailure, hacted, hworld⟩, hevents⟩ := runAction hh hlx hW t.action
    simp only [← hkeeps, hn, Bool.not_true, Bool.false_eq_true, if_false]
    rw [hevents, ← hfailure]
    obtain ⟨hprogress, hconcluded⟩ := hacted.concluded
      (({ lx with phase := .dispatching }.consumed n w).runAction h t.action world).1
    exact ⟨⟨hprogress, hconcluded, hworld⟩,
      .cons (.dispatched t hlx.context hlx.name) (Event.alike_self _ _)⟩
  · simp only [← hkeeps, hn, Bool.not_false, if_true]
    exact ⟨⟨rfl, hl.setPhase .dispatching, hW⟩, .nil⟩

end Lexer.Alike

/-! ## Looking for a match in input that reads alike -/

/-- The inputs of lexers that are alike read alike: their windows are related by `V`, and their
texts are the same. -/
structure Likeness.ReadsBy (k : Likeness η) (V : Window → Window → Prop) : Prop where
  alike : Window.ReadAlike V
  input : ∀ {a b}, k.input a b ↔ Option.Rel V a.1 b.1 ∧ a.2 = b.2

theorem Likeness.readsBy_eq {k : Likeness η} (hk : k.input = Eq) : k.ReadsBy Eq where
  alike := Window.readAlike_eq
  input := by
    rintro ⟨w, text⟩ ⟨w', text'⟩
    rw [hk, Prod.mk.injEq]
    refine and_congr_left' ⟨?_, ?_⟩
    · rintro rfl
      cases w with
      | none => exact .none
      | some w => exact .some rfl
    · rintro (⟨rfl⟩ | _) <;> rfl

/-- Lexers that are alike differ at most in the presentation of their input. -/
structure Likeness.Faithful (k : Likeness η) (V : Window → Window → Prop) :
    Prop extends k.ReadsBy V where
  name : k.name = Eq
  handler : k.handler = Eq

theorem Likeness.faithful_same (η : Type) : (Likeness.same η).Faithful Eq :=
  ⟨Likeness.readsBy_eq rfl, rfl, rfl⟩

/-- No call tells such lexers further apart. -/
theorem Likeness.Faithful.admits {k : Likeness η} {V : Window → Window → Prop} (hk : k.Faithful V)
    (r : Request α η) : k.Admits r := by
  refine Likeness.admits_of (fun s _ a b hab => ?_) fun s _ => ⟨?_, ?_⟩
  · rw [hk.handler] at hab ⊢
    rw [hab]
  · rw [hk.name]
  · rw [hk.input]
    exact ⟨.some (hk.alike.refl _), rfl⟩

namespace Lexer

theorem see_input (lx : Lexer α η) (w w₁ : Window) :
    (lx.see w w₁).input = (some w₁, lx.bytes.text) := by
  unfold Lexer.see
  simp only
  split <;> rfl

theorem searchRunes_text (lx : Lexer α η) (w : Window) :
    (lx.searchRunes w).2.2.bytes.text = lx.bytes.text := (congrArg Prod.snd (see_input _ _ _) :)

/-- Aims at the same, in windows that are related by `V`. -/
inductive Aim.Alike (V : Window → Window → Prop) : Aim α → Aim α → Prop
  | take (t : Taker α) (n : Nat) {w w' : Window} (hw : V w w') :
      Aim.Alike V (.take t n w) (.take t n w')
  | stop (p : Progress) : Aim.Alike V (.stop p) (.stop p)

namespace Alike

variable {k : Likeness η} {V : Window → Window → Prop} {lx lx' : Lexer α η} {w w' : Window}

/-- The input is taken in as the same bytes, or was before. -/
theorem bufferBytes (hV : Window.ReadAlike V) (htext : lx.bytes.text = lx'.bytes.text)
    (hww : V w w') :
    (lx.bufferBytes w).1 = (lx'.bufferBytes w').1 ∧
      V (lx.bufferBytes w).2.1 (lx'.bufferBytes w').2.1 := by
  have hdrain := hV.drain hww
  unfold Lexer.bufferBytes
  rw [htext]
  split
  · exact ⟨rfl, hww⟩
  · simp only [hV.ahead hdrain, hV.offset hdrain]
    exact ⟨trivial, hdrain⟩

/-- A search over bytes is set up alike. -/
theorem byteSetup (hV : Window.ReadAlike V) (hl : Alike k lx lx')
    (htext : lx.bytes.text = lx'.bytes.text) (hw : lx.window = some w) (hw' : lx'.window = some w')
    (hww : V w w') :
    (lx.byteSetup w).1 = (lx'.byteSetup w').1 ∧ V (lx.byteSetup w).2.1 (lx'.byteSetup w').2.1 ∧
      (lx.byteSetup w).2.2.bytes.text = (lx'.byteSetup w').2.2.bytes.text := by
  obtain ⟨hlooks, hwin, htext₁, -⟩ := bufferBytes_spec hw
  obtain ⟨hlooks', hwin', htext₁', -⟩ := bufferBytes_spec hw'
  have hsame := bufferBytes hV htext hww
  rcases hbuffer : lx.bufferBytes w with ⟨text, w₁, lx₁⟩
  rcases hbuffer' : lx'.bufferBytes w' with ⟨text', w₁', lx₁'⟩
  rw [hbuffer] at hlooks hwin htext₁ hsame
  rw [hbuffer'] at hlooks' hwin' htext₁' hsame
  obtain ⟨rfl, hww₁⟩ := hsame
  have hoffset : w₁.offset = w₁'.offset := hV.offset hww₁
  obtain ⟨_, hf⟩ := hl.left.looks hlooks
  obtain ⟨_, hf'⟩ := hl.right.looks hlooks'
  have hready := ready_byteRules lx₁ lx.context.state
  have hready' := ready_byteRules lx₁' lx.context.state
  have hrules : (lx₁.byteRules lx.context.state).1 = (lx₁'.byteRules lx.context.state).1 := by
    have hcompiled := hf.byteRules (hlooks.kept.rules.trans hl.rules) lx.context.state
    exact hcompiled.trans (hf'.byteRules hlooks'.kept.rules _).symm
  rcases hresult : lx₁.byteRules lx.context.state with ⟨result, lx₂⟩
  rcases hresult' : lx₁'.byteRules lx.context.state with ⟨result', lx₂'⟩
  rw [hresult] at hready hrules
  rw [hresult'] at hready' hrules
  cases hrules
  unfold Lexer.byteSetup
  simp only [← hl.state, hbuffer, hbuffer', hresult, hresult']
  cases result with
  | error s => exact ⟨rfl, hww₁, (hready.text.trans htext₁).trans (hready'.text.trans htext₁').symm⟩
  | ok c =>
    simp only [← hoffset]
    split
    · exact ⟨rfl, hww₁, (hready.text.trans htext₁).trans (hready'.text.trans htext₁').symm⟩
    · split
      · exact ⟨rfl, hww₁, rfl⟩
      · -- either scanner is the one that would be made
        have hmoved :=
          (hf.looks hready.looks).move (hready.text.trans htext₁) (hready.window.trans hwin)
        have hmoved' :=
          (hf'.looks hready'.looks).move (hready'.text.trans htext₁') (hready'.window.trans hwin')
        rw [← hoffset] at hmoved'
        refine ⟨?_, hww₁, (hready.scanning rfl).text.trans (hready'.scanning rfl).text.symm⟩
        rw [hmoved.byteScanner (hready.kept c rfl) rfl,
          hmoved'.byteScanner (hready'.kept c rfl) rfl]

/-- A match is looked for alike. -/
theorem search (hV : Window.ReadAlike V) (hl : Alike k lx lx')
    (htext : lx.bytes.text = lx'.bytes.text) (hw : lx.window = some w) (hw' : lx'.window = some w')
    (hww : V w w') :
    (lx.search w).1 = (lx'.search w').1 ∧ V (lx.search w).2.1 (lx'.search w').2.1 ∧
      (lx.search w).2.2.bytes.text = (lx'.search w').2.2.bytes.text := by
  unfold Lexer.search
  rw [← hl.options]
  split
  · obtain ⟨hsetup, hwindow, hread⟩ := hl.byteSetup hV htext hw hw' hww
    rw [searchBytes_eq, searchBytes_eq]
    rcases hresult : lx.byteSetup w with ⟨u, w₁, lx₁⟩
    rcases hresult' : lx'.byteSetup w' with ⟨u', w₁', lx₁'⟩
    rw [hresult, hresult'] at hsetup hwindow hread
    cases hsetup
    cases u with
    | error s => exact ⟨rfl, hwindow, hread⟩
    | ok u => exact ⟨rfl, hwindow, hread⟩
  · obtain ⟨es, hf⟩ := hl.left
    obtain ⟨es', hf'⟩ := hl.right
    have hrules := hf.runes.machineFor_rules lx.context.state
    have hrules' := hf'.runes.machineFor_rules lx'.context.state
    rw [← hl.rules, ← hl.state] at hrules'
    -- what the machines have kept from earlier contests makes no difference
    obtain ⟨hhit, hwindow⟩ :=
      (lx.runes.machineFor lx.rules lx.context.state).run_alike hV hww
    obtain ⟨hhit', hwindow'⟩ := Machine.run_congr (hrules.trans hrules'.symm) w'
    rw [hhit'] at hhit
    rw [hwindow'] at hwindow
    have htexts : (lx.searchRunes w).2.2.bytes.text = (lx'.searchRunes w').2.2.bytes.text := by
      rw [searchRunes_text, searchRunes_text, htext]
    refine ⟨?_, ?_, htexts⟩ <;> unfold searchRunes RuneMatcher.longest <;>
      simp only [← hl.rules, ← hl.state, hhit, hrules, hrules']
    exact hwindow

theorem see (hk : k.ReadsBy V) (hl : Alike k lx lx') (hw : lx.window = some w)
    (hw' : lx'.window = some w') {w₁ w₁' : Window} (hr : Window.Reads w w₁)
    (hr' : Window.Reads w' w₁') (hww : V w₁ w₁') :
    Alike k (lx.see w w₁) (lx'.see w' w₁') := by
  refine hl.looks (Looks.refl.see hw hr) (Looks.refl.see hw' hr') ?_ ?_
  · rw [see_phase, see_phase, hl.phase]
  · rw [see_input, see_input, hk.input]
    exact ⟨.some hww, (hk.input.mp hl.input).2⟩

theorem decideOn (hk : k.ReadsBy V) (hl : Alike k lx lx') (hw : lx.window = some w)
    (hw' : lx'.window = some w') (hww : V w w') (state : Text) (found : Search α) :
    (lx.decideOn state found w).1.Alike V (lx'.decideOn state found w').1 ∧
      Alike k (lx.decideOn state found w).2 (lx'.decideOn state found w').2 := by
  have hfailure := hk.alike.failure? hww
  -- what follows from the search is decided by the window, and by the default action
  have hnothing (hf : w.failure? = none) :
      (lx.decideOn state .nothing w).1.Alike V (lx'.decideOn state .nothing w').1 ∧
        Alike k (lx.decideOn state .nothing w).2 (lx'.decideOn state .nothing w').2 := by
    rw [decideOn_nothing hf, decideOn_nothing (hfailure ▸ hf), ← hl.rules]
    cases lx.rules.defaultFor state with
    | some action => exact ⟨.take _ _ hww, hl⟩
    | none =>
      obtain ⟨hshown, hlookahead⟩ := hk.alike.lookahead hww 16
      have hseen :=
        hl.see hk hw hw' (Window.reads_lookahead w 16) (Window.reads_lookahead w' 16) hlookahead
      have hmismatch : (lx.see w (w.lookahead 16).2).mismatch (w.lookahead 16).1 =
          (lx'.see w' (w'.lookahead 16).2).mismatch (w'.lookahead 16).1 := by
        unfold Lexer.mismatch
        rw [hseen.line, hseen.state, hshown]
      simp only [hmismatch]
      exact ⟨.stop _, hseen.fail _⟩
  cases found with
  | failed e => exact ⟨.stop _, hl.fail e⟩
  | broken => exact ⟨.stop _, hl⟩
  | found r n =>
    cases hf : w.failure? with
    | some message =>
      unfold Lexer.decideOn
      simp only [← hfailure, hf]
      exact ⟨.stop _, hl.fail _⟩
    | none =>
      cases n with
      | zero => exact hnothing hf
      | succ n =>
        rw [decideOn_found n.succ_pos hf, decideOn_found n.succ_pos (hfailure ▸ hf)]
        exact ⟨.take _ _ hww, hl⟩
  | nothing =>
    cases hf : w.failure? with
    | some message =>
      unfold Lexer.decideOn
      simp only [← hfailure, hf]
      exact ⟨.stop _, hl.fail _⟩
    | none => exact hnothing hf

theorem aimIn (hk : k.ReadsBy V) (hl : Alike k lx lx') (hw : lx.window = some w)
    (hw' : lx'.window = some w') (hww : V w w') :
    (lx.aimIn w).1.Alike V (lx'.aimIn w').1 ∧ Alike k (lx.aimIn w).2 (lx'.aimIn w').2 := by
  obtain ⟨R, stop, hover⟩ := hl.left.onto w hw
  obtain ⟨R', stop', hover'⟩ := hl.right.onto w' hw'
  obtain ⟨hrune, hpeek⟩ := hk.alike.peek hww
  have hseen := hl.see hk hw hw' (Window.reads_peek w) (Window.reads_peek w') hpeek
  have hexhausted : w.exhausted.1 = w'.exhausted.1 := congrArg Option.isNone hrune
  unfold Lexer.aimIn
  simp only [← hexhausted, show w.exhausted.2 = w.peek.2 from rfl,
    show w'.exhausted.2 = w'.peek.2 from rfl, ← hk.alike.failure? hpeek]
  split
  · split
    · exact ⟨.stop _, hseen.fail _⟩
    · refine ⟨.stop _,
        hseen.looks ((Looks.refl.phase _).note _ _) ((Looks.refl.phase _).note _ _) rfl ?_⟩
      exact hseen.input
  · obtain ⟨hfound, hwindow, htext⟩ := hseen.search hk.alike (hk.input.mp hseen.input).2
      (see_window _ _ _) (see_window _ _ _) hpeek
    have hsearch := searched_search (see_window lx w w.peek.2) ((Window.reads_peek w).onto hover)
    have hsearch' :=
      searched_search (see_window lx' w' w'.peek.2) ((Window.reads_peek w').onto hover')
    have hsearched := hseen.looks hsearch.looks hsearch'.looks
      (by rw [hsearch.phase, hsearch'.phase, hseen.phase])
      (by
        rw [Lexer.input, Lexer.input, hsearch.window, hsearch'.window, hk.input]
        exact ⟨.some hwindow, htext⟩)
    have hdecided := hsearched.decideOn hk hsearch.window hsearch'.window hwindow
      (lx.see w w.peek.2).context.state ((lx.see w w.peek.2).search w.peek.2).1
    rw [← hseen.state, ← hfound]
    exact hdecided

/-- **On input that reads alike, lexers that are alike look for the same match**, and are alike
afterwards. -/
theorem aim (hk : k.ReadsBy V) (hl : Alike k lx lx') :
    lx.aim.1.Alike V lx'.aim.1 ∧ Alike k lx.aim.2 lx'.aim.2 := by
  have hwindows := (hk.input.mp hl.input).1
  have hscanning (hp : lx.phase = .idle ∨ lx.phase = .matching) :
      lx.aim.1.Alike V lx'.aim.1 ∧ Alike k lx.aim.2 lx'.aim.2 := by
    have hp' : lx'.phase = .idle ∨ lx'.phase = .matching := hl.phase ▸ hp
    rcases hw : lx.window with _ | w <;> rcases hw' : lx'.window with _ | w' <;>
      rw [Lexer.input, Lexer.input, hw, hw'] at hwindows
    · rw [aim_unattached hp hw, aim_unattached hp' hw']
      exact ⟨.stop _, hl⟩
    · cases hwindows
    · cases hwindows
    · obtain ⟨hww⟩ := hwindows
      rw [aim_attached hp hw, aim_attached hp' hw']
      exact (hl.setPhase .matching).aimIn hk hw hw' hww
  cases hp : lx.phase with
  | idle => exact hscanning (.inl hp)
  | matching => exact hscanning (.inr hp)
  | dispatching =>
    rw [aim_dispatching hp, aim_dispatching (hl.phase.symm.trans hp)]
    exact ⟨.stop _, hl⟩
  | exhausted =>
    rw [aim_exhausted hp, aim_exhausted (hl.phase.symm.trans hp)]
    exact ⟨.stop _, hl⟩
  | failed e =>
    rw [aim_failed hp, aim_failed (hl.phase.symm.trans hp)]
    exact ⟨.stop _, hl⟩

section

variable {W : ω → ω' → Prop} {h : Host α η υ ω} {h' : Host α η υ ω'} {world : ω} {world' : ω'}

/-- **On input that reads alike, a step does alike**, if the actions do. -/
theorem step (hk : k.ReadsBy V) (hh : h.Alike k W h') (hl : Alike k lx lx') (hW : W world world') :
    Matched k W (lx.step h world) (lx'.step h' world') ∧
      List.Forall₂ (Event.Alike k.name) (lx.stepEvents h .silent world)
        (lx'.stepEvents h' .silent world') := by
  obtain ⟨haim, hlx⟩ := hl.aim hk
  unfold Lexer.step Lexer.stepEvents
  rcases hright : lx'.aim with ⟨aim', lx₁'⟩
  rcases hleft : lx.aim with ⟨aim, lx₁⟩
  rw [hright, hleft] at haim hlx
  simp only at haim hlx
  cases haim with
  | stop p => exact ⟨⟨rfl, hlx, hW⟩, Event.alike_self _ _⟩
  | @take t n w w' hww =>
    have hw := (aim_take hl.left.onto hleft).1
    have hw' := (aim_take hl.right.onto hright).1
    have hkeeps := hk.alike.keeps hww n
    refine dispatch hh hlx hW hkeeps (fun hn => ?_) t
    refine (hlx.setPhase .dispatching).consumed hw hw' hn (hkeeps ▸ hn) (by rw [hk.alike.ahead hww])
      (hk.alike.offset hww) ?_
    rw [hk.input]
    exact ⟨.some (hk.alike.consume hww n), (hk.input.mp hlx.input).2⟩

/-- **On input that reads alike, whole scans do alike**, if the actions do and the interruptions are
the same. -/
theorem lexUnless (hk : k.ReadsBy V) (hh : h.Alike k W h') {interrupted : ω → Option Error}
    {interrupted' : ω' → Option Error}
    (hi : ∀ {world world'}, W world world' → interrupted world = interrupted' world') (limit : Nat)
    (hl : Alike k lx lx') (hW : W world world') :
    Matched k W (lx.lexUnless h interrupted limit world)
      (lx'.lexUnless h' interrupted' limit world') ∧
      List.Forall₂ (Event.Alike k.name) (lx.lexEvents h .silent interrupted limit world)
        (lx'.lexEvents h' .silent interrupted' limit world') := by
  induction limit generalizing lx lx' world world' with
  | zero => exact ⟨⟨rfl, hl, hW⟩, .nil⟩
  | succ limit ih =>
    unfold Lexer.lexUnless Lexer.lexEvents
    rw [← hl.ended, ← hi hW]
    cases (if lx.ended then none else interrupted world) with
    | some e => exact ⟨⟨rfl, hl.fail e, hW⟩, .nil⟩
    | none =>
      obtain ⟨⟨hprogress, hlx, hworld⟩, hevents⟩ := step hk hh hl hW
      simp only
      rcases hleft : lx.step h world with ⟨progress, lx₁, world₁⟩
      rcases hright : lx'.step h' world' with ⟨progress', lx₁', world₁'⟩
      rw [hleft, hright] at hprogress hlx hworld
      cases hprogress
      cases progress with
      | more =>
        obtain ⟨hmatched, hmore⟩ := ih hlx hworld
        exact ⟨hmatched, List.rel_append hevents hmore⟩
      | done => exact ⟨⟨rfl, hlx, hworld⟩, List.rel_append hevents .nil⟩
      | failed e => exact ⟨⟨rfl, hlx, hworld⟩, List.rel_append hevents .nil⟩
      | broken => exact ⟨⟨rfl, hlx, hworld⟩, List.rel_append hevents .nil⟩

end

end Alike

end Lexer

/-! ## Staff -/

/-- The actions and handlers of a staff keep within bounds, and take no notice of a difference in
the names of sources. -/
structure Staff.Within (staff : Staff α η υ ω) (name : Option Text → Option Text → Prop)
    (asks : Request α η → Prop) (scans : Prop) : Prop where
  act : ∀ a c world, (staff.act a c world).Within name asks scans
  named : ∀ a world {c c' : Context}, c.unnamed = c'.unnamed → name c.input c'.input →
    staff.act a c world = staff.act a c' world
  deliver : ∀ handler t world, (staff.deliver handler t world).Within name asks scans

theorem Staff.within_all (staff : Staff α η υ ω) : staff.Within Eq (fun _ => True) True where
  act a c world := (staff.act a c world).within_all
  named a world _ _ hc hn := congrArg (staff.act a · world) (Context.eq_of_unnamed hc hn)
  deliver handler t world := (staff.deliver handler t world).within_all

/-- Actions and handlers that do not scan keep what their calls keep. -/
theorem Staff.Within.keeps {staff : Staff α η υ ω} {name : Option Text → Option Text → Prop}
    {asks : Request α η → Prop} (hs : staff.Within name asks False) {P : Lexer α η → Prop}
    (hasks : ∀ r, asks r → ∀ {lx}, P lx → P (r.on lx).2) (inner : Host α η υ ω) :
    (staff.serve inner).Keeps P where
  act hl a c world := (hs.act a c world).keeps hasks hl
  deliver hl handler t world := (hs.deliver handler t world).keeps hasks hl

/-- **Actions and handlers that are callers do alike**, if the steps they make do. -/
theorem Staff.serve_alike {k : Likeness η} (hk : k.handler = Eq) {asks : Request α η → Prop}
    {scans : Prop} (hasks : ∀ r, asks r → k.Admits r) {staff : Staff α η υ ω}
    (hs : staff.Within k.name asks scans) {inner inner' : Host α η υ ω}
    (hstep : scans → ∀ {lx lx' : Lexer α η}, lx.Alike k lx' →
      ∀ world, Matched k Eq (lx.step inner world) (lx'.step inner' world)) :
    (staff.serve inner).Alike k Eq (staff.serve inner') where
  act := by
    rintro c c' lx lx' world _ hc hn hl rfl a
    show Matched k Eq ((staff.act a c world).on inner lx) ((staff.act a c' world).on inner' lx')
    rw [← hs.named a world hc hn]
    exact Client.on_alike hasks hstep (hs.act a c world) hl
  deliver := by
    rintro handler handler' lx lx' world _ hhandler hhandler' hl rfl t
    have hsame := hl.handler
    rw [hk, hhandler, hhandler'] at hsame
    cases hsame
    have hm := Client.on_alike hasks hstep (hs.deliver handler t world) hl
    exact ⟨hm.lexer, hm.world⟩

end Munch
