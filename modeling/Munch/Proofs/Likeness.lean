import Munch.Proofs.Client

/-!
# Lexers that are alike

Two lexers are alike if callers cannot tell them apart, and if what they keep for themselves is up
to date. They may have compiled different things and written down different notices. A `Likeness`
says what else may be different: the names of their sources, their token handlers, the input they
have left.

Results:
* `Lexer.Alike.request`: calls answer alike, and leave the lexers alike.
* `Client.on_alike`: so does every caller.
-/

namespace Munch

open Lexer

variable {α η υ ω ω' β : Type}

/-! ## Being alike -/

/-- The context without the name of the source. -/
def Context.unnamed (c : Context) : Context := { c with input := none }

theorem Context.eq_of_unnamed {c c' : Context} (h : c.unnamed = c'.unnamed)
    (hn : c.input = c'.input) : c = c' := by
  obtain ⟨state, line, text, span, input⟩ := c
  obtain ⟨state', line', text', span', input'⟩ := c'
  cases h
  cases hn
  rfl

/-- The input that a lexer has left: its window, and the text if it was read completely. -/
def Lexer.input (lx : Lexer α η) : Option Window × Option Bytes.ByteText :=
  (lx.window, lx.bytes.text)

/-- In which respects two lexers that are alike may be different. -/
structure Likeness (η : Type) where
  name : Option Text → Option Text → Prop
  handler : Option η → Option η → Prop
  input : Option Window × Option Bytes.ByteText → Option Window × Option Bytes.ByteText → Prop
  handler_isSome : ∀ {a b}, handler a b → a.isSome = b.isSome

/-- Being alike in all respects. -/
def Likeness.same (η : Type) : Likeness η := ⟨Eq, Eq, Eq, congrArg _⟩

namespace Lexer

/-- What the lexer would use again is good. -/
def UpToDate (lx : Lexer α η) : Prop := ∃ es : List (Event α Unit), lx.Fresh es

/-- Two lexers are alike. -/
structure Alike (k : Likeness η) (lx lx' : Lexer α η) : Prop where
  book : lx.book = lx'.book
  context : lx.context.unnamed = lx'.context.unnamed
  phase : lx.phase = lx'.phase
  name : k.name lx.context.input lx'.context.input
  handler : k.handler lx.handler lx'.handler
  input : k.input lx.input lx'.input
  left : lx.UpToDate
  right : lx'.UpToDate

theorem UpToDate.onto {lx : Lexer α η} (h : lx.UpToDate) :
    ∀ w, lx.window = some w → ∃ R stop, w.Over R stop := h.elim fun _ hf => hf.onto

theorem UpToDate.looks {lx lx' : Lexer α η} (h : lx.UpToDate) (hl : Looks lx lx') : lx'.UpToDate :=
  h.imp fun _ hf => hf.looks hl

theorem Looks.book {lx lx' : Lexer α η} (h : Looks lx lx') : lx'.book = lx.book := by
  induction h with
  | refl => rfl
  | note _ _ _ ih | phase _ _ ih | read _ _ _ ih | runes _ _ _ ih | buffer _ _ ih | reuse _ _ _ ih
  | compile _ _ ih | move _ _ _ ih | scan _ _ _ ih | attempt _ _ ih => exact ih

end Lexer

/-- A lexer with a history is up to date. -/
theorem History.upToDate {settings : List (Setting α η)} {lx : Lexer α η}
    (h : History settings lx) :
    lx.UpToDate := h.invariant Lexer.invariant_fresh Lexer.fresh_new

namespace Lexer.Alike

variable {k : Likeness η} {lx lx' lx₁ lx₁' : Lexer α η}

theorem rules (h : Alike k lx lx') : lx.rules = lx'.rules := (congrArg Lexer.rules h.book :)

theorem tokens (h : Alike k lx lx') : lx.tokens = lx'.tokens := (congrArg Lexer.tokens h.book :)

theorem options (h : Alike k lx lx') : lx.options = lx'.options := (congrArg Lexer.options h.book :)

theorem states (h : Alike k lx lx') : lx.states = lx'.states := (congrArg Lexer.states h.book :)

theorem state (h : Alike k lx lx') : lx.context.state = lx'.context.state :=
  (congrArg Context.state h.context :)

theorem line (h : Alike k lx lx') : lx.context.line = lx'.context.line :=
  (congrArg Context.line h.context :)

theorem ended (h : Alike k lx lx') : lx.ended = lx'.ended := by
  unfold Lexer.ended
  rw [h.phase]

/-- Looking for a match leaves lexers alike that come to the same phase and to like inputs. -/
theorem looks (h : Alike k lx lx') (hl : Looks lx lx₁) (hl' : Looks lx' lx₁')
    (hphase : lx₁.phase = lx₁'.phase) (hinput : k.input lx₁.input lx₁'.input) :
    Alike k lx₁ lx₁' where
  book := by rw [hl.book, hl'.book, h.book]
  context := by rw [hl.kept.context, hl'.kept.context, h.context]
  phase := hphase
  name := by
    rw [hl.kept.context, hl'.kept.context]
    exact h.name
  handler := by
    rw [hl.kept.handler, hl'.kept.handler]
    exact h.handler
  input := hinput
  left := h.left.looks hl
  right := h.right.looks hl'

theorem setPhase (h : Alike k lx lx') (p : Phase) :
    Alike k { lx with phase := p } { lx' with phase := p } :=
  h.looks (Looks.refl.phase p) (Looks.refl.phase p) rfl h.input

theorem fail (h : Alike k lx lx') (e : Error) : Alike k (lx.fail e) (lx'.fail e) :=
  h.looks (Looks.refl.fail e) (Looks.refl.fail e) rfl h.input

end Lexer.Alike

/-! ## Calls -/

/-- A call whose effect on two lexers does not tell more apart than the likeness allows. -/
def Likeness.Admits (k : Likeness η) : Request α η → Prop
  | .setting s => ∀ a b, k.handler a b → k.handler (s.handler?.getD a) (s.handler?.getD b)
  | .attach (.source s) =>
    k.name s.name s.name ∧ k.input (some (.ofSource s), none) (some (.ofSource s), none)
  | _ => True

/-- It is enough to look at the token handler that a call sets, and at the source that it
attaches. -/
theorem Likeness.admits_of {k : Likeness η} {r : Request α η}
    (hhandler : ∀ s, r = .setting s → ∀ a b, k.handler a b →
      k.handler (s.handler?.getD a) (s.handler?.getD b))
    (hsource : ∀ s, r.source? = some s →
      k.name s.name s.name ∧ k.input (some (.ofSource s), none) (some (.ofSource s), none)) :
    k.Admits r := by
  cases r with
  | setting s => exact hhandler s rfl
  | begin state => trivial
  | attach input =>
    cases input with
    | unusable what => trivial
    | source s => exact hsource s rfl

theorem Lexer.book_attachSource (lx : Lexer α η) (s : Source) :
    (lx.attachSource s).book = lx.book := by
  unfold Lexer.attachSource
  simp only
  split <;> rfl

theorem Lexer.begin_error {lx lx' : Lexer α η} (hstates : lx.states = lx'.states)
    (hstate : lx.context.state = lx'.context.state) (state : Text) :
    errorOf (lx.begin state) = errorOf (lx'.begin state) := by
  unfold Lexer.begin
  rw [hstates, hstate]
  split
  · rfl
  · split <;> rfl

namespace Lexer.Alike

variable {k : Likeness η} {lx lx' : Lexer α η}

theorem setting (h : Alike k lx lx') {s : Setting α η} (hs : k.Admits (.setting s)) :
    s.answer lx = s.answer lx' ∧ Alike k (s.apply lx) (s.apply lx') := by
  obtain ⟨hbook, hanswer⟩ := Setting.apply_book lx s
  obtain ⟨hbook', hanswer'⟩ := Setting.apply_book lx' s
  have hr := Setting.registered lx s
  have hr' := Setting.registered lx' s
  refine ⟨by rw [hanswer, hanswer', h.book], ?_⟩
  exact
    { book := by rw [hbook, hbook', h.book]
      context := by rw [hr.context, hr'.context, h.context]
      phase := by rw [hr.phase, hr'.phase, h.phase]
      name := by
        rw [hr.context, hr'.context]
        exact h.name
      handler := by
        rw [Setting.apply_handler, Setting.apply_handler]
        exact hs _ _ h.handler
      input := by
        rw [Lexer.input, Lexer.input, hr.window, hr.bytes, hr'.window, hr'.bytes]
        exact h.input
      left := h.left.imp fun _ hf => hf.registered hr
      right := h.right.imp fun _ hf => hf.registered hr' }

theorem begin (h : Alike k lx lx') (state : Text) :
    errorOf (lx.begin state) = errorOf (lx'.begin state) ∧
      Alike k (lx.orSame (lx.begin state)) (lx'.orSame (lx'.begin state)) := by
  have herror := begin_error h.states h.state state
  refine ⟨herror, ?_⟩
  cases hb : lx.begin state with
  | error e =>
    cases hb' : lx'.begin state with
    | error e' => exact h
    | ok lx₁' =>
      rw [hb, hb'] at herror
      cases herror
  | ok lx₁ =>
    cases hb' : lx'.begin state with
    | error e =>
      rw [hb, hb'] at herror
      cases herror
    | ok lx₁' =>
      have hleft := h.left.imp fun _ hf => invariant_fresh.begin hf state hb
      have hright := h.right.imp fun _ hf => invariant_fresh.begin hf state hb'
      show Alike k lx₁ lx₁'
      rw [begin_ok hb, begin_ok hb'] at *
      refine ⟨h.book, ?_, h.phase, h.name, h.handler, h.input, hleft, hright⟩
      have hc := h.context
      simp only [Context.unnamed, Context.mk.injEq, true_and] at hc ⊢
      exact hc.2

theorem attachSource (h : Alike k lx lx') {s : Source}
    (hs : k.Admits (α := α) (.attach (.source s))) :
    Alike k (lx.attachSource s) (lx'.attachSource s) := by
  have ha := attached_attachSource lx s
  have ha' := attached_attachSource lx' s
  exact
    { book := by rw [book_attachSource, book_attachSource, h.book]
      context := by rw [ha.context, ha'.context]
      phase := by rw [ha.phase, ha'.phase]
      name := by
        rw [ha.context, ha'.context]
        exact hs.1
      handler := by
        rw [ha.handler, ha'.handler]
        exact h.handler
      input := by
        rw [Lexer.input, Lexer.input, ha.window, ha.bytes, ha'.window, ha'.bytes]
        exact hs.2
      left := h.left.elim fun _ hf => ⟨_, invariant_fresh.attach hf s⟩
      right := h.right.elim fun _ hf => ⟨_, invariant_fresh.attach hf s⟩ }

/-- **Calls answer alike, and leave the lexers alike.** -/
theorem request (h : Alike k lx lx') {r : Request α η} (hr : k.Admits r) :
    (r.on lx).1 = (r.on lx').1 ∧ Alike k (r.on lx).2 (r.on lx').2 := by
  cases r with
  | setting s => exact h.setting hr
  | begin state => exact h.begin state
  | attach input =>
    cases input with
    | unusable what => exact ⟨rfl, h⟩
    | source s => exact ⟨rfl, h.attachSource hr⟩

end Lexer.Alike

/-! ## Callers -/

/-- Two results are alike, of calls on lexers and worlds. -/
structure Matched (k : Likeness η) (W : ω → ω' → Prop) (x : β × Lexer α η × ω)
    (y : β × Lexer α η × ω') : Prop where
  result : x.1 = y.1
  lexer : x.2.1.Alike k y.2.1
  world : W x.2.2 y.2.2

/-- The caller makes only calls among `asks`, scans only if it may, and takes no notice of a
difference in the names of sources. -/
def Client.Within (name : Option Text → Option Text → Prop) (asks : Request α η → Prop)
    (scans : Prop) :
    Client α η ω β → Prop
  | .done _ _ => True
  | .look next =>
    (∀ v v' : View α η, v.book = v'.book → v.phase = v'.phase →
      v.context.unnamed = v'.context.unnamed →
      name v.context.input v'.context.input → next v = next v') ∧
      ∀ v, (next v).Within name asks scans
  | .ask r next => asks r ∧ ∀ e, (next e).Within name asks scans
  | .step _ next => scans ∧ ∀ p world, (next p world).Within name asks scans
  | .interrupt _ next => scans ∧ next.Within name asks scans

/-- Without a difference in the names, and with all calls allowed, every caller keeps within its
bounds. -/
theorem Client.within_all (p : Client α η ω β) : p.Within Eq (fun _ => True) True := by
  induction p with
  | done => trivial
  | look next ih =>
    refine ⟨fun v v' hbook hphase hcontext hname => congrArg next ?_, ih⟩
    obtain ⟨book, context, phase⟩ := v
    obtain ⟨book', context', phase'⟩ := v'
    cases hbook
    cases hphase
    cases Context.eq_of_unnamed hcontext hname
    rfl
  | ask r next ih => exact ⟨trivial, ih⟩
  | step world next ih => exact ⟨trivial, ih⟩
  | interrupt e next ih => exact ⟨trivial, ih⟩

/-- A caller that does not scan keeps what its calls keep. -/
theorem Client.Within.keeps {name : Option Text → Option Text → Prop} {asks : Request α η → Prop}
    {P : Lexer α η → Prop} (hasks : ∀ r, asks r → ∀ {lx}, P lx → P (r.on lx).2) {h : Host α η υ ω}
    {p : Client α η ω β} (hp : p.Within name asks False) {lx : Lexer α η} (hl : P lx) :
    P (p.on h lx).2.1 := by
  induction p generalizing lx with
  | done result world => exact hl
  | look next ih => exact ih _ (hp.2 _) hl
  | ask r next ih => exact ih _ (hp.2 _) (hasks r hp.1 hl)
  | step world next ih => exact hp.1.elim
  | interrupt e next ih => exact hp.1.elim

/-- **Every caller fares alike on lexers that are alike**, if its steps do. -/
theorem Client.on_alike {k : Likeness η} {asks : Request α η → Prop} {scans : Prop}
    (hasks : ∀ r, asks r → k.Admits r) {h h' : Host α η υ ω}
    (hstep : scans → ∀ {lx lx' : Lexer α η}, lx.Alike k lx' →
      ∀ world, Matched k Eq (lx.step h world) (lx'.step h' world))
    {p : Client α η ω β} (hp : p.Within k.name asks scans) {lx lx' : Lexer α η}
    (hl : lx.Alike k lx') : Matched k Eq (p.on h lx) (p.on h' lx') := by
  induction p generalizing lx lx' with
  | done result world => exact ⟨rfl, hl, rfl⟩
  | look next ih =>
    have hnext : next lx.view = next lx'.view := hp.1 _ _ hl.book hl.phase hl.context hl.name
    have hm := ih lx.view (hp.2 _) hl
    show Matched k Eq ((next lx.view).on h lx) ((next lx'.view).on h' lx')
    rw [← hnext]
    exact hm
  | ask r next ih =>
    obtain ⟨hanswer, hlx⟩ := hl.request (hasks r hp.1)
    have hm := ih (r.on lx).1 (hp.2 _) hlx
    show Matched k Eq ((next (r.on lx).1).on h (r.on lx).2) ((next (r.on lx').1).on h' (r.on lx').2)
    rw [← hanswer]
    exact hm
  | step world next ih =>
    obtain ⟨hp₁, hlx, hworld⟩ := hstep hp.1 hl world
    have hm := ih _ (lx.step h world).2.2 (hp.2 (lx.step h world).1 _) hlx
    show Matched k Eq ((next (lx.step h world).1 (lx.step h world).2.2).on h (lx.step h world).2.1)
      ((next (lx'.step h' world).1 (lx'.step h' world).2.2).on h' (lx'.step h' world).2.1)
    rw [← hp₁, ← hworld]
    exact hm
  | interrupt e next ih =>
    refine ih hp.2 ?_
    rw [← hl.ended]
    split
    · exact hl
    · exact hl.fail e

end Munch
