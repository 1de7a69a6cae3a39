import Munch.Proofs.Contest
import Munch.Proofs.Run

/-!
# What calls leave as they are

Registration does not touch the scan in progress, and looking for a match does not touch what was
registered.

* `Lexer.Registered lx lx'`: the scan of `lx'` is that of `lx`, and its rules are the same or later
  ones.
* `Lexer.Looks lx lx'`: `lx'` is `lx` after any of the things that happen on the way to a match,
  each of them a constructor: reading on, taking a notice, asking a matcher, keeping what it made.

Results:
* `Setting.registered`: every call that registers something leaves the scan as it is.
* `Lexer.Looks.kept`: what was registered, and the context, stay while a match is looked for.
* `Lexer.Looks.window`: the window is only read further.
-/

namespace Munch

variable {α η υ : Type}

namespace Lexer

/-! ## Registration -/

/-- The scan is the same, and a change of the rules shows in their version. -/
structure Registered (lx lx' : Lexer α η) : Prop where
  context : lx'.context = lx.context
  phase : lx'.phase = lx.phase
  window : lx'.window = lx.window
  runes : lx'.runes = lx.runes
  bytes : lx'.bytes = lx.bytes
  rules : lx'.rules = lx.rules ∨ lx.rules.version < lx'.rules.version

namespace Registered

variable {lx lx₁ lx₂ : Lexer α η}

theorem refl (lx : Lexer α η) : Registered lx lx := ⟨rfl, rfl, rfl, rfl, rfl, .inl rfl⟩

theorem trans (h : Registered lx lx₁) (h' : Registered lx₁ lx₂) : Registered lx lx₂ := by
  refine ⟨h'.context.trans h.context, h'.phase.trans h.phase, h'.window.trans h.window,
    h'.runes.trans h.runes, h'.bytes.trans h.bytes, ?_⟩
  obtain h₁ | h₁ := h.rules
  · rw [← h₁]
    exact h'.rules
  · obtain h₂ | h₂ := h'.rules
    · rw [h₂]
      exact .inr h₁
    · exact .inr (Nat.lt_trans h₁ h₂)

theorem remark (h : Registered lx lx₁) (n : Notice) : Registered lx (lx₁.remark n) :=
  h.trans ⟨rfl, rfl, rfl, rfl, rfl, .inl rfl⟩

theorem warn (h : Registered lx lx₁) (w : Warning) : Registered lx (lx₁.warn w) :=
  h.trans ⟨rfl, rfl, rfl, rfl, rfl, .inl rfl⟩

theorem foldl {β : Type} {f : Lexer α η → β → Lexer α η} (hf : ∀ lx b, Registered lx (f lx b))
    (bs : List β) (h : Registered lx lx₁) : Registered lx (bs.foldl f lx₁) := by
  induction bs generalizing lx₁ with
  | nil => exact h
  | cons b bs ih => exact ih (h.trans (hf lx₁ b))

theorem orSame {result : Except Error (Lexer α η)}
    (h : ∀ lx', result = .ok lx' → Registered lx lx') : Registered lx (lx.orSame result) := by
  unfold Lexer.orSame
  split
  next lx' => exact h lx' rfl
  · exact refl lx

end Registered

theorem registered_bind (lx : Lexer α η) (r : Rule α) (state : Text) :
    Registered lx (lx.bind r state) := by
  have h : Registered lx { lx with rules := lx.rules.put state r } :=
    ⟨rfl, rfl, rfl, rfl, rfl, .inr (Nat.lt_succ_self _)⟩
  unfold bind
  simp only
  split
  · exact h.remark _
  · exact h

theorem registered_warnReferences (lx : Lexer α η) (spec pattern : Text) :
    Registered lx (lx.warnReferences spec pattern) := by
  refine Registered.foldl (fun lx name => ?_) _ (.refl lx)
  split
  · exact .refl lx
  · exact (Registered.refl lx).warn _

theorem registered_addRule (lx : Lexer α η) (spec : Text) (action : Option α) :
    Registered lx (lx.addRule spec action).2 := by
  unfold addRule
  simp only
  split
  · exact .refl lx
  next states _ =>
    have h := registered_warnReferences lx spec (lx.definitions.expand (Rule.splitSpec spec).2)
    split
    · exact h
    next r _ => exact (Registered.foldl (fun lx s => registered_bind lx r s) states h).remark _

theorem registered_addDefaultRule (lx : Lexer α η) (action : Option α) :
    Registered lx (lx.addDefaultRule action) := by
  refine ⟨rfl, rfl, rfl, rfl, rfl, ?_⟩
  -- each state that gets a default action makes the version larger
  have hle (t : RuleTable α) (states : List Text) :
      t.version + states.length = (states.foldl (fun t s => t.putDefault s action) t).version := by
    induction states generalizing t with
    | nil => rfl
    | cons s states ih =>
      rw [List.foldl_cons, ← ih, RuleTable.putDefault, List.length_cons]
      simp only
      omega
  show lx.states.inclusive.foldl (fun t s => t.putDefault s action) lx.rules = lx.rules ∨
    lx.rules.version <
      (lx.states.inclusive.foldl (fun t s => t.putDefault s action) lx.rules).version
  rw [← hle]
  cases lx.states.inclusive with
  | nil => exact .inl rfl
  | cons s states =>
    rw [List.length_cons]
    exact .inr (by omega)

end Lexer

/-- **Registration leaves the scan as it is**, and the rules change only with their version. -/
theorem Setting.registered (lx : Lexer α η) (s : Setting α η) : lx.Registered (s.apply lx) := by
  cases s with
  | define name fragment =>
    refine Lexer.Registered.orSame fun lx' h => ?_
    unfold Lexer.define at h
    split at h
    · cases h
    next defs _ =>
      cases h
      have h : lx.Registered { lx with definitions := defs } := ⟨rfl, rfl, rfl, rfl, rfl, .inl rfl⟩
      exact h.remark _
  | declare name c =>
    show lx.Registered (lx.declare name c)
    unfold Lexer.declare
    split
    · exact (Lexer.Registered.refl lx).warn _
    · exact ⟨rfl, rfl, rfl, rfl, rfl, .inl rfl⟩
  | rule spec action => exact Lexer.registered_addRule lx spec action
  | defaultRule action => exact Lexer.registered_addDefaultRule lx action
  | token name => exact ⟨rfl, rfl, rfl, rfl, rfl, .inl rfl⟩
  | handler target => exact ⟨rfl, rfl, rfl, rfl, rfl, .inl rfl⟩
  | option name on =>
    refine Lexer.Registered.orSame fun lx' h => ?_
    unfold Lexer.setOption at h
    split at h
    · cases h
    · cases h
      exact ⟨rfl, rfl, rfl, rfl, rfl, .inl rfl⟩

namespace Lexer

/-- A scan that starts with the source `s`; what was registered or compiled stays. -/
structure Attached (s : Source) (lx lx' : Lexer α η) : Prop where
  window : lx'.window = some (.ofSource s)
  context : lx'.context = { input := s.name }
  phase : lx'.phase = .idle
  runes : lx'.runes = lx.runes
  bytes : lx'.bytes = { lx.bytes with text := none, scanners := [] }
  states : lx'.states = lx.states
  rules : lx'.rules = lx.rules
  tokens : lx'.tokens = lx.tokens
  options : lx'.options = lx.options
  handler : lx'.handler = lx.handler

theorem attached_attachSource (lx : Lexer α η) (s : Source) :
    Attached s lx (lx.attachSource s) := by
  unfold attachSource
  simp only
  split <;> exact ⟨rfl, rfl, rfl, rfl, rfl, rfl, rfl, rfl, rfl, rfl⟩

/-! ## Looking for a match -/

/-- The programs that the patterns over bytes of rules are compiled to; none are needed for no
rules. -/
def Compiles (rules : List (Rule α)) (ps : List Program) : Prop :=
  rules = [] ∧ ps = [] ∨ Bytes.compile (rules.map (·.bytePattern)) = .programs ps

/-- What happens to a lexer while it looks for a match, one thing after the other. -/
inductive Looks (lx : Lexer α η) : Lexer α η → Prop
  | refl : Looks lx lx
  | note {lx' : Lexer α η} (h : Looks lx lx') (level : Level) (n : Notice) :
      Looks lx (lx'.note level n)
  | phase {lx' : Lexer α η} (h : Looks lx lx') (p : Phase) : Looks lx { lx' with phase := p }
  | read {lx' : Lexer α η} {w w' : Window} (h : Looks lx lx') (hw : lx'.window = some w)
      (hr : Window.Reads w w') : Looks lx { lx' with window := some w' }
  | runes {lx' : Lexer α η} (h : Looks lx lx') (state : Text) (w : Window) :
      Looks lx { lx' with runes := (lx'.runes.longest lx'.rules state w).2.2 }
  /-- the rest of the input is taken in as bytes -/
  | buffer {lx' : Lexer α η} {w : Window} (h : Looks lx lx') (hw : lx'.window = some w) :
      Looks lx { lx' with
        window := some w.drain
        bytes := { lx'.bytes with
          text := some ⟨(Bytes.encode w.drain.ahead).toArray, w.drain.offset, 0⟩, scanners := [] } }
  /-- compiled rules are still good, with the rules of now -/
  | reuse {lx' : Lexer α η} {state : Text} {c : ByteRules α} (h : Looks lx lx')
      (hc : lx'.bytes.compiled.lookup state = some c)
      (hf : c.fingerprint = (lx'.rules.rulesFor state).map (·.bytePattern)) :
      Looks lx { lx' with bytes := { lx'.bytes with
        compiled := RuleTable.update state { c with rules := lx'.rules.rulesFor state }
          lx'.bytes.compiled } }
  /-- the rules of a state are compiled, and its scanner is dropped -/
  | compile {lx' : Lexer α η} {state : Text} {ps : List Program} (h : Looks lx lx')
      (hps : Compiles (lx'.rules.rulesFor state) ps) :
      Looks lx { lx' with bytes := { lx'.bytes with
        compiled := RuleTable.update state
          ⟨(lx'.rules.rulesFor state).map (·.bytePattern), lx'.rules.rulesFor state, ps⟩
          lx'.bytes.compiled
        scanners := lx'.bytes.scanners.filter (·.1 != state) } }
  /-- the text is moved to the cursor -/
  | move {lx' : Lexer α η} {text : Bytes.ByteText} {w : Window} (h : Looks lx lx')
      (htext : lx'.bytes.text = some text) (hw : lx'.window = some w) :
      Looks lx { lx' with bytes := { lx'.bytes with text := some (text.moveTo w.offset) } }
  /-- a scanner is made for compiled rules and the text -/
  | scan {lx' : Lexer α η} {state : Text} {c : ByteRules α} {text : Bytes.ByteText}
      (h : Looks lx lx')
      (hc : lx'.bytes.compiled.lookup state = some c) (htext : lx'.bytes.text = some text) :
      Looks lx { lx' with bytes := { lx'.bytes with
        scanners := RuleTable.update state ⟨c.programs, text.bytes⟩ lx'.bytes.scanners
        trails := RuleTable.update state {} lx'.bytes.trails } }
  /-- a scanner looks for a match, and leaves its trail -/
  | attempt {lx' : Lexer α η} (h : Looks lx lx') (u : ByteSetup α) : Looks lx (lx'.attempt u).2

/-- What was registered, and the context, stay. -/
structure Kept (lx lx' : Lexer α η) : Prop where
  definitions : lx'.definitions = lx.definitions
  states : lx'.states = lx.states
  rules : lx'.rules = lx.rules
  tokens : lx'.tokens = lx.tokens
  options : lx'.options = lx.options
  handler : lx'.handler = lx.handler
  context : lx'.context = lx.context

namespace Looks

variable {lx lx₁ lx₂ : Lexer α η}

theorem trans (h : Looks lx lx₁) (h' : Looks lx₁ lx₂) : Looks lx lx₂ := by
  induction h' with
  | refl => exact h
  | note _ level n ih => exact ih.note level n
  | phase _ p ih => exact ih.phase p
  | read _ hw hr ih => exact ih.read hw hr
  | runes _ state w ih => exact ih.runes state w
  | buffer _ hw ih => exact ih.buffer hw
  | reuse _ hc hf ih => exact ih.reuse hc hf
  | compile _ hps ih => exact ih.compile hps
  | move _ htext hw ih => exact ih.move htext hw
  | scan _ hc htext ih => exact ih.scan hc htext
  | attempt _ u ih => exact ih.attempt u

/-- **Looking for a match leaves what was registered, and the context, as they are.** -/
theorem kept (h : Looks lx lx₁) : Kept lx lx₁ := by
  induction h with
  | refl => exact ⟨rfl, rfl, rfl, rfl, rfl, rfl, rfl⟩
  | note _ _ _ ih | phase _ _ ih | read _ _ _ ih | runes _ _ _ ih | buffer _ _ ih | reuse _ _ _ ih
  | compile _ _ ih | move _ _ _ ih | scan _ _ _ ih | attempt _ _ ih =>
    exact ⟨ih.definitions, ih.states, ih.rules, ih.tokens, ih.options, ih.handler, ih.context⟩

/-- **Looking for a match only reads the window further.** -/
theorem window (h : Looks lx lx₁) {w : Window} (hw : lx.window = some w) :
    ∃ w', lx₁.window = some w' ∧ Window.Reads w w' := by
  induction h with
  | refl => exact ⟨w, hw, .refl w⟩
  | note _ _ _ ih | phase _ _ ih | runes _ _ _ ih | reuse _ _ _ ih | compile _ _ ih | move _ _ _ ih
  | scan _ _ _ ih | attempt _ _ ih => exact ih
  | read _ hw' hr ih =>
    obtain ⟨v, hv, hreads⟩ := ih
    cases hw'.symm.trans hv
    exact ⟨_, rfl, hreads.trans hr⟩
  | buffer _ hw' ih =>
    obtain ⟨v, hv, hreads⟩ := ih
    cases hw'.symm.trans hv
    exact ⟨_, rfl, hreads.trans (Window.reads_drain _)⟩

theorem see (h : Looks lx lx₁) {w w' : Window} (hw : lx₁.window = some w) (hr : Window.Reads w w') :
    Looks lx (lx₁.see w w') := by
  unfold Lexer.see
  simp only
  split
  · exact (h.read hw hr).note _ _
  · exact h.read hw hr

theorem fail (h : Looks lx lx₁) (e : Error) : Looks lx (lx₁.fail e) := (h.note _ _).phase _

end Looks

@[simp] theorem see_window (lx : Lexer α η) (w w' : Window) : (lx.see w w').window = some w' := by
  unfold see
  simp only
  split <;> rfl

@[simp] theorem see_phase (lx : Lexer α η) (w w' : Window) : (lx.see w w').phase = lx.phase := by
  unfold see
  simp only
  split <;> rfl

end Lexer

end Munch
