import Munch.Proofs.BreakingOff

/-!
# Input that breaks off

A source breaks off with a read error where another one goes on. The scan of the first one makes the
same dispatches as the scan of the second, up to the place where it meets the error, and no other
ones.

* `Lexer.Halts`, `Lexer.Dispatches`: the two ways that a step of both scans can go.

Results:
* `Lexer.Alike.halts_or_dispatches`: one step of both scans.
* `Lexer.Alike.trace_truncated`, `Lexer.Alike.lex_truncated`: their dispatches, and how they end.
* **`read_error_only_truncates`**: both scans as a whole.
-/

namespace Munch

open Lexer

variable {α η υ ω : Type}

/-! ## One step of both scans -/

namespace Lexer

variable {message : Text} {lx lx' : Lexer α η} {w w' : Window}

/-- The number of runes that a scan has left. -/
def left (lx : Lexer α η) : Nat := lx.window.elim 0 fun w => (w.ahead ++ w.unread).length

/-- Consuming a match leaves fewer runes. -/
theorem left_consume (hw : lx.window = some w) {n : Nat} (hpos : 0 < n) (hn : w.keeps n = true)
    (hw' : lx'.window = some (w.consume n).2) : lx'.left < lx.left := by
  have hle := Window.keeps_iff.mp hn
  simp only [left, hw, hw', Option.elim_some, Window.consume, Window.unread, List.length_append,
    List.length_drop]
  omega

/-- Looking for a match leaves all runes. -/
theorem Looks.left (h : Looks lx lx') (hw : lx.window = some w) : lx'.left = lx.left := by
  obtain ⟨w', hw', hreads⟩ := h.window hw
  simp only [Lexer.left, hw, hw', Option.elim_some, hreads.rest]

/-- A step goes on after its action. -/
theorem concluded_none (hp : lx.phase = .dispatching) :
    lx.concluded none = (.more, { lx with phase := .matching }) := by
  simp only [concluded, hp, if_true]

/-- An error that comes of an action. -/
theorem effect_failed {c : Context} {reply : Reply υ} {e : Error}
    (h : lx.effect c reply = .failed e) : e.Agrees e := by
  unfold effect at h
  split at h
  · cases h
  · cases h
    exact .action _ _ _
  · split at h
    · cases h
    · split at h
      · cases h
        exact .token _ _
      · split at h <;> cases h

theorem runAction_failed {h : Host α η υ ω} {action : Option α} {world : ω} {e : Error}
    (hfailed : (lx.runAction h action world).1 = some e) : e.Agrees e := by
  unfold runAction at hfailed
  cases action with
  | none => cases hfailed
  | some a =>
    simp only at hfailed
    split at hfailed
    · cases hfailed
    next e' heffect =>
      cases hfailed
      exact effect_failed heffect
    · cases hfailed

/-- An error that a step answers in the middle of a scan is kept. -/
theorem aim_refused {lx₁ : Lexer α η} {e : Error} (hp : lx.phase = .idle ∨ lx.phase = .matching)
    (hw : lx.window = some w) (haim : lx.aim = (.stop (.failed e), lx₁)) :
    lx₁.phase = .failed e := by
  obtain ⟨hdone, -⟩ | ⟨e', he', hphase⟩ | ⟨_, _, _, hdispatching | hnone⟩ | hbroken := aim_stop haim
  · cases hdone
  · cases he'
    exact hphase
  · rw [hdispatching] at hp
    obtain hp | hp := hp <;> cases hp
  · cases hw.symm.trans hnone
  · cases hbroken

/-- The first of two scans halts without a dispatch. Among runes that is the read error, or a
mismatch on which both scans agree. -/
structure Halts (h : Host α η υ ω) (message : Text) (lx lx' : Lexer α η) (world : ω) : Prop where
  progress : (lx.step h world).1 ≠ .more
  events : lx.stepEvents h .silent world = []
  error : lx.options.dfa = false → ∃ e, (lx.step h world).1 = .failed e ∧
    (lx.step h world).2.1.phase = .failed e ∧
    (e = readError message ∨ ∃ e', e.Agrees e' ∧ (lx'.step h world).1 = .failed e' ∧
      (lx'.step h world).2.1.phase = .failed e' ∧ lx'.stepEvents h .silent world = [])

/-- Both scans make the same dispatch. They go on, or end with the same error of an action. -/
structure Dispatches (h : Host α η υ ω) (k : Likeness η) (lx lx' : Lexer α η) (world : ω) :
    Prop where
  both : Matched k Eq (lx.step h world) (lx'.step h world)
  events : List.Forall₂ (Event.Alike k.name) (lx.stepEvents h .silent world)
    (lx'.stepEvents h .silent world)
  progress : ((lx.step h world).1 = .more ∧ (lx.step h world).2.1.phase = .matching ∧
      (lx.step h world).2.1.left < lx.left) ∨
    ∃ e, (lx.step h world).1 = .failed e ∧ (lx.step h world).2.1.phase = .failed e ∧ e.Agrees e

/-- Both scans come to the same progress and the same world. -/
theorem Dispatches.steps {h : Host α η υ ω} {k : Likeness η} {world : ω}
    (hd : Dispatches h k lx lx' world) {p : Progress} (hp : (lx.step h world).1 = p) :
    lx.step h world = (p, (lx.step h world).2.1, (lx.step h world).2.2) ∧
      lx'.step h world = (p, (lx'.step h world).2.1, (lx.step h world).2.2) := by
  obtain ⟨hsame, -, hworld⟩ := hd.both
  rw [← hp, hworld]
  exact ⟨by rw [← hworld], by rw [hsame]⟩

section

variable {name name' : Option Text} {h : Host α η υ ω}

/-- The match that was found is dispatched alike, by actions that attach no source. -/
theorem Alike.dispatches (hh : h.Alike (.truncated message name name') Eq h)
    (hkeeps : ∀ v, h.Keeps fun lx => lx.phase = .dispatching ∧ lx.window = v)
    (hl : Alike (.truncated message name name') lx lx') {t : Taker α} {n : Nat}
    {lx₁ lx₁' : Lexer α η} (haim : lx.aim = (.take t n w, lx₁))
    (haim' : lx'.aim = (.take t n w', lx₁')) (hl₁ : Alike (.truncated message name name') lx₁ lx₁')
    (hsynced : w.Synced message w') (hn : w.keeps n = true) (world : ω) :
    Dispatches h (.truncated message name name') lx lx' world := by
  obtain ⟨hw, -, -, hpos⟩ := aim_take hl.left.onto haim
  obtain ⟨hw', -⟩ := aim_take hl.right.onto haim'
  have hn' : w'.keeps n = true := by
    rw [Window.keeps_iff] at hn ⊢
    rwa [← hsynced.ahead]
  obtain ⟨htext, htext', -⟩ := hl₁.input
  have hconsumed :=
    (hl₁.setPhase .dispatching).consumed hw hw' hn hn' (by rw [hsynced.ahead]) hsynced.offset
      ⟨htext, htext', _, _, rfl, rfl, hsynced.consume n⟩
  obtain ⟨hmatched, hevents⟩ := dispatch hh hl₁ (rfl : world = world) (hn.trans hn'.symm)
    (fun _ => hconsumed) t
  refine ⟨?_, ?_, ?_⟩
  · unfold Lexer.step
    rw [haim, haim']
    exact hmatched
  · unfold stepEvents
    rw [haim, haim']
    exact hevents
  · rw [step_take h world haim hn rfl]
    have hstart : ({ lx₁ with phase := .dispatching }.consumed n w).phase = .dispatching ∧
        ({ lx₁ with phase := .dispatching }.consumed n w).window = some (w.consume n).2 :=
          ⟨rfl, rfl⟩
    obtain ⟨hphase, hwindow⟩ := (hkeeps _).runAction hstart t.action world
    cases hfailure :
      (({ lx₁ with phase := .dispatching }.consumed n w).runAction h t.action world).1 with
    | some e => exact .inr ⟨e, rfl, rfl, runAction_failed hfailure⟩
    | none =>
      rw [concluded_none hphase]
      obtain ⟨-, -, w₀, -, hw₀, -⟩ := hl.input
      have hlooks := looks_of_aim hl.left.onto haim
      refine .inl ⟨rfl, rfl, ?_⟩
      rw [← hlooks.left hw₀]
      exact left_consume hw hpos hn hwindow

/-- **One step of both scans**: the first one halts, or both make the same dispatch. -/
theorem Alike.halts_or_dispatches (hh : h.Alike (.truncated message name name') Eq h)
    (hkeeps : ∀ v, h.Keeps fun lx => lx.phase = .dispatching ∧ lx.window = v)
    (hl : Alike (.truncated message name name') lx lx')
    (hp : lx.phase = .idle ∨ lx.phase = .matching) (world : ω) :
    Halts h message lx lx' world ∨ Dispatches h (.truncated message name name') lx lx' world := by
  obtain ⟨htext, htext', w, w', hw, hw', hsynced⟩ := hl.input
  -- nothing happens in a step that ends with an error
  have hevents {lx lx₁ : Lexer α η} {e : Error} (haim : lx.aim = (.stop (.failed e), lx₁)) :
      lx.stepEvents h .silent world = [] := by
    unfold stepEvents
    rw [haim]
    rfl
  cases hdfa : lx.options.dfa with
  | true =>
    obtain ⟨R, stop, hover⟩ := hl.left.onto w hw
    obtain ⟨p, lx₁, haim, hstop⟩ := aim_buffered hsynced hw hover htext hp hdfa
    refine .inl ⟨?_, ?_, fun hoff => by rw [hdfa] at hoff; cases hoff⟩
    · rw [step_stop h world haim]
      rintro rfl
      obtain hstop | ⟨e, hstop⟩ := hstop <;> cases hstop
    · unfold stepEvents
      rw [haim]
      obtain rfl | ⟨e, rfl⟩ := hstop <;> rfl
  | false =>
    have hforked := hl.aim_synced hp hdfa
    rcases haim : lx.aim with ⟨aim, lx₁⟩
    rcases haim' : lx'.aim with ⟨aim', lx₁'⟩
    rw [haim, haim'] at hforked
    cases hforked with
    | unreadable =>
      refine .inl ⟨?_, hevents haim, fun _ => ⟨readError message, ?_, ?_, .inl rfl⟩⟩
      all_goals rw [step_stop h world haim]
      · rintro ⟨⟩
      · exact aim_refused hp hw haim
    | @mismatch e e' he =>
      refine .inl ⟨?_, hevents haim, fun _ => ⟨e, ?_, ?_, .inr ⟨e', he, ?_, ?_, hevents haim'⟩⟩⟩
      all_goals simp only [step_stop h world haim, step_stop h world haim']
      · rintro ⟨⟩
      · exact aim_refused hp hw haim
      · exact aim_refused (hl.phase ▸ hp) hw' haim'
    | take t n hl₁ hsynced₁ hn =>
      exact .inr (hl.dispatches hh hkeeps haim haim' hl₁ hsynced₁ hn world)

end

end Lexer

/-! ## Both scans -/

/-- The event without the name of the source. -/
def Event.unnamed : Event α υ → Event α υ
  | .dispatched t c => .dispatched t c.unnamed
  | e => e

theorem Event.map_unnamed {name : Option Text → Option Text → Prop} {es es' : List (Event α υ)}
    (h : List.Forall₂ (Event.Alike name) es es') :
    es.map Event.unnamed = es'.map Event.unnamed := by
  induction h with
  | nil => rfl
  | cons he _ ih =>
    rw [List.map_cons, List.map_cons, ih]
    cases he with
    | same e => rfl
    | dispatched t hc hn => rw [Event.unnamed, Event.unnamed, hc]

namespace Lexer

variable {message : Text} {name name' : Option Text} {h : Host α η υ ω} {lx lx' lx₁ : Lexer α η}
  {world world₁ : ω}

/-- The dispatches and tokens of a scan with at most `limit` steps, without the names of sources. -/
def trace (h : Host α η υ ω) (limit : Nat) (lx : Lexer α η) (world : ω) : List (Event α υ) :=
  (lx.lexEvents h .silent (fun _ => none) limit world).map Event.unnamed

theorem trace_more (hstep : lx.step h world = (.more, lx₁, world₁)) (limit : Nat) :
    lx.trace h (limit + 1) world =
      (lx.stepEvents h .silent world).map Event.unnamed ++ lx₁.trace h limit world₁ := by
  unfold trace
  rw [lexEvents]
  simp only [ite_self, hstep, List.map_append]

theorem trace_halt (hstep : (lx.step h world).1 ≠ .more) (limit : Nat) :
    lx.trace h (limit + 1) world = (lx.stepEvents h .silent world).map Event.unnamed := by
  unfold trace
  rw [lexEvents]
  simp only [ite_self]
  rcases hp : lx.step h world with ⟨progress, lx₁, world₁⟩
  rw [hp] at hstep
  cases progress with
  | more => exact absurd rfl hstep
  | done | failed | broken => rw [List.append_nil]

theorem lex_failed {e : Error} (hstep : (lx.step h world).1 = .failed e) (limit : Nat) :
    (lx.lex h (limit + 1) world).1 = .failed e ∧
      (lx.lex h (limit + 1) world).2.1 = (lx.step h world).2.1 := by
  rcases hp : lx.step h world with ⟨progress, lx₁, world₁⟩
  rw [hp] at hstep
  cases hstep
  rw [lex_stop hp (by rintro ⟨⟩)]
  exact ⟨rfl, rfl⟩

/-- **The scan that breaks off does nothing that the other one does not.** The induction is on its
steps. -/
theorem Alike.trace_truncated (hh : h.Alike (.truncated message name name') Eq h)
    (hkeeps : ∀ v, h.Keeps fun lx => lx.phase = .dispatching ∧ lx.window = v)
    (hl : Alike (.truncated message name name') lx lx')
    (hp : lx.phase = .idle ∨ lx.phase = .matching) (world : ω) {limit limit' : Nat}
    (hle : limit ≤ limit') :
    lx.trace h limit world <+: lx'.trace h limit' world := by
  induction limit generalizing limit' lx lx' world with
  | zero => exact List.nil_prefix
  | succ limit ih =>
    obtain ⟨limit', rfl⟩ := Nat.exists_eq_succ_of_ne_zero (Nat.ne_of_gt (Nat.zero_lt_of_lt hle))
    obtain hhalts | hdispatches := hl.halts_or_dispatches hh hkeeps hp world
    · rw [trace_halt hhalts.progress, hhalts.events]
      exact List.nil_prefix
    · have hevents := Event.map_unnamed hdispatches.events
      obtain ⟨hsame, hlx, -⟩ := hdispatches.both
      obtain ⟨hmore, hphase, -⟩ | ⟨e, he, -⟩ := hdispatches.progress
      · obtain ⟨hstep, hstep'⟩ := hdispatches.steps hmore
        rw [trace_more hstep, trace_more hstep', hevents]
        exact (List.prefix_append_right_inj _).mpr
          (ih hlx (.inr hphase) _ (Nat.le_of_succ_le_succ hle))
      · rw [trace_halt (by rw [he]; rintro ⟨⟩), trace_halt (by rw [← hsame, he]; rintro ⟨⟩),
          hevents]

/-- **A scan that breaks off fails**, with the read error, or with an error on which the other one
agrees, after the same dispatches. The induction is on its steps, each of which consumes a rune. -/
theorem Alike.lex_truncated (hh : h.Alike (.truncated message name name') Eq h)
    (hkeeps : ∀ v, h.Keeps fun lx => lx.phase = .dispatching ∧ lx.window = v)
    (hl : Alike (.truncated message name name') lx lx')
    (hp : lx.phase = .idle ∨ lx.phase = .matching) (world : ω) {limit limit' : Nat}
    (hle : limit ≤ limit') (hoff : ∀ n, (lx.lex h n world).2.1.options.dfa = false)
    (hlimit : lx.left < limit) :
    ∃ e, (lx.lex h limit world).1 = .failed e ∧ (lx.lex h limit world).2.1.phase = .failed e ∧
      (e = readError message ∨ ∃ e', e.Agrees e' ∧ (lx'.lex h limit' world).1 = .failed e' ∧
        (lx'.lex h limit' world).2.1.phase = .failed e' ∧
        lx.trace h limit world = lx'.trace h limit' world) := by
  induction limit generalizing limit' lx lx' world with
  | zero => exact absurd hlimit (Nat.not_lt_zero _)
  | succ limit ih =>
    obtain ⟨limit', rfl⟩ := Nat.exists_eq_succ_of_ne_zero (Nat.ne_of_gt (Nat.zero_lt_of_lt hle))
    obtain hhalts | hdispatches := hl.halts_or_dispatches hh hkeeps hp world
    · obtain ⟨e, he, hphase, hcase⟩ := hhalts.error (hoff 0)
      obtain ⟨houtcome, hlx⟩ := lex_failed he limit
      refine ⟨e, houtcome, by rw [hlx, hphase], hcase.imp_right ?_⟩
      rintro ⟨e', hagrees, he', hphase', hevents'⟩
      obtain ⟨houtcome', hlx'⟩ := lex_failed he' limit'
      refine ⟨e', hagrees, houtcome', by rw [hlx', hphase'], ?_⟩
      rw [trace_halt hhalts.progress, trace_halt (by rw [he']; rintro ⟨⟩), hhalts.events, hevents']
    · have hevents := Event.map_unnamed hdispatches.events
      obtain ⟨hsame, hlx, -⟩ := hdispatches.both
      obtain ⟨hmore, hphase, hless⟩ | ⟨e, he, hphase, hagrees⟩ := hdispatches.progress
      · obtain ⟨hstep, hstep'⟩ := hdispatches.steps hmore
        have hnext := ih hlx (.inr hphase) (lx.step h world).2.2 (Nat.le_of_succ_le_succ hle)
          (fun n => by rw [← lex_more hstep]; exact hoff (n + 1)) (by omega)
        rw [lex_more hstep, lex_more hstep', trace_more hstep, trace_more hstep', hevents]
        obtain ⟨e, houtcome, hfailed, hcase⟩ := hnext
        refine ⟨e, houtcome, hfailed, hcase.imp_right ?_⟩
        rintro ⟨e', hagrees, houtcome', hfailed', htrace⟩
        exact ⟨e', hagrees, houtcome', hfailed', by rw [htrace]⟩
      · have he' : (lx'.step h world).1 = .failed e := by rw [← hsame, he]
        obtain ⟨houtcome, hlex⟩ := lex_failed he limit
        obtain ⟨houtcome', hlex'⟩ := lex_failed he' limit'
        refine ⟨e, houtcome, by rw [hlex, hphase], .inr ⟨e, hagrees, houtcome', ?_, ?_⟩⟩
        · rw [hlex', ← hlx.phase, hphase]
        · rw [trace_halt (by rw [he]; rintro ⟨⟩), trace_halt (by rw [he']; rintro ⟨⟩), hevents]

end Lexer

/-- A call that attaches no source does not tell apart more than there is. -/
theorem Likeness.truncated_admits {message : Text} {name name' : Option Text} (r : Request α η)
    (hr : r.source? = none) : (Likeness.truncated message name name').Admits r := by
  refine Likeness.admits_of (fun s _ => ?_) fun s hs => ?_
  · rintro a _ rfl
    rfl
  · cases hr.symm.trans hs

/-- **A read error never causes a dispatch on truncated input.** The source `F` breaks off with a
read error where the source `G` may go on, and both are scanned with the same actions and handlers,
which attach no sources and do not scan; if the sources have different names, they do the same for
both. What happens in the scan of `F` is the beginning of what happens in the scan of `G`. If option
`dfa` is off throughout then the scan of `F` fails: with the read error, or after the same
dispatches as that of `G` and with the same error. -/
theorem read_error_only_truncates {settings : List (Setting α η)} {lx : Lexer α η}
    (hist : History settings lx) {F G : Source} {message : Text}
    (hreason : F.reason = .broken message) (hpending : F.pending <+: G.pending)
    {staff : Staff α η υ ω}
    (hstaff : staff.Within (fun a b => a = F.name ∧ b = G.name) (fun r => r.source? = none) False)
    (inner : Host α η υ ω) (world : ω) {limit limit' : Nat} (hle : limit ≤ limit') :
    (lx.attachSource F).trace (staff.serve inner) limit world <+:
        (lx.attachSource G).trace (staff.serve inner) limit' world ∧
      ((∀ n, ((lx.attachSource F).lex (staff.serve inner) n world).2.1.options.dfa = false) →
        F.pending.length < limit →
        ∃ e, ((lx.attachSource F).lex (staff.serve inner) limit world).1 = .failed e ∧
          ((lx.attachSource F).lex (staff.serve inner) limit world).2.1.phase = .failed e ∧
          (e = readError message ∨ ∃ e', e.Agrees e' ∧
            ((lx.attachSource G).lex (staff.serve inner) limit' world).1 = .failed e' ∧
            ((lx.attachSource G).lex (staff.serve inner) limit' world).2.1.phase = .failed e' ∧
            (lx.attachSource F).trace (staff.serve inner) limit world =
              (lx.attachSource G).trace (staff.serve inner) limit' world)) := by
  have hF := attached_attachSource lx F
  have hG := attached_attachSource lx G
  have hh : (staff.serve inner).Alike (.truncated message F.name G.name) Eq (staff.serve inner) :=
    Staff.serve_alike rfl Likeness.truncated_admits hstaff (fun hfalse => hfalse.elim)
  have hkeeps (v : Option Window) :
      (staff.serve inner).Keeps fun lx => lx.phase = .dispatching ∧ lx.window = v := by
    refine hstaff.keeps (fun r hr lx hlx => ⟨?_, ?_⟩) inner
    · rw [Request.on_phase, show r.source? = none from hr]
      exact hlx.1
    · rw [Request.on_window hr]
      exact hlx.2
  have hl : (lx.attachSource F).Alike (.truncated message F.name G.name) (lx.attachSource G) :=
    { book := by rw [book_attachSource, book_attachSource]
      context := by
        rw [hF.context, hG.context]
        rfl
      phase := by rw [hF.phase, hG.phase]
      name := by
        rw [hF.context, hG.context]
        exact ⟨rfl, rfl⟩
      handler := hF.handler.trans hG.handler.symm
      input := by
        rw [Lexer.input, Lexer.input, hF.window, hF.bytes, hG.window, hG.bytes]
        exact ⟨rfl, rfl, _, _, rfl, rfl, Window.synced_ofSource hpending hreason⟩
      left := (hist.attach F).upToDate
      right := (hist.attach G).upToDate }
  have hp : (lx.attachSource F).phase = .idle ∨ (lx.attachSource F).phase = .matching :=
    .inl hF.phase
  refine ⟨hl.trace_truncated hh hkeeps hp world hle, fun hoff hlimit => ?_⟩
  refine hl.lex_truncated hh hkeeps hp world hle hoff ?_
  have hleft : (lx.attachSource F).left = F.pending.length := by
    rw [Lexer.left, hF.window]
    rfl
  rwa [hleft]

/-- A step leaves the options as they are, unless its action changes them. -/
theorem History.steady_options (settings : List (Setting α η)) (o : Options) :
    Lexer.Steady fun lx => History settings lx ∧ lx.options = o where
  fail hl e := ⟨hl.1.fail e, hl.2⟩
  stop hl haim := by
    have hlooks := looks_of_aim hl.1.upToDate.onto haim
    exact ⟨hl.1.stop haim, hlooks.kept.options.trans hl.2⟩
  broken hl haim := by
    have hlooks := looks_of_aim hl.1.upToDate.onto haim
    exact ⟨hl.1.broken haim, hlooks.kept.options.trans hl.2⟩
  dispatched hl haim hkeeps := by
    have hlooks := looks_of_aim hl.1.upToDate.onto haim
    exact ⟨hl.1.dispatched haim hkeeps, hlooks.kept.options.trans hl.2⟩
  resumed hl hp := ⟨hl.1.resumed hp, hl.2⟩

/-- A lexer with a rule that emits a token for each pair ab. -/
def pairs : List (Setting Nat Unit) := [.rule "ab" (some 1), .token "T", .handler (some ())]

/-- Actions that emit a token. Actions and handlers count their calls. -/
def pairsStaff : Staff Nat Unit Unit Nat :=
  ⟨fun _ _ n => .done { token := "T" } (n + 1), fun _ _ n => .done () (n + 1)⟩

/-- The lexer on an input that breaks off behind a place where no rule matches. -/
def pairsBroken : Lexer Nat Unit :=
  (Lexer.configured pairs).attachSource (.ofReader "abxy" (.broken "io") "f")

/-- The lexer on an input that goes on. -/
def pairsWhole : Lexer Nat Unit :=
  (Lexer.configured pairs).attachSource (.ofReader "abxyzz" .ended "g")

set_option maxRecDepth 10000 in
theorem read_error_only_truncates_mismatch :
    (pairsBroken.trace (pairsStaff.serve (pairsStaff.host 0)) 5 0).length = 3 ∧
      pairsBroken.trace (pairsStaff.serve (pairsStaff.host 0)) 5 0 =
        pairsWhole.trace (pairsStaff.serve (pairsStaff.host 0)) 7 0 ∧
      (pairsBroken.lex (pairsStaff.serve (pairsStaff.host 0)) 5 0).1 =
        .failed (.noMatch ⟨1, "initial", 120, "xy"⟩) ∧
      (pairsWhole.lex (pairsStaff.serve (pairsStaff.host 0)) 7 0).1 =
        .failed (.noMatch ⟨1, "initial", 120, "xyzz"⟩) := by
  have hlength : (pairsBroken.trace (pairsStaff.serve (pairsStaff.host 0)) 5 0).length = 3 := by
    decide +kernel
  have hfailed : (pairsBroken.lex (pairsStaff.serve (pairsStaff.host 0)) 5 0).1 =
      .failed (.noMatch ⟨1, "initial", 120, "xy"⟩) := by decide +kernel
  have hfailed' : (pairsWhole.lex (pairsStaff.serve (pairsStaff.host 0)) 7 0).1 =
      .failed (.noMatch ⟨1, "initial", 120, "xyzz"⟩) := by decide +kernel
  have hoff (n : Nat) :
      (pairsBroken.lex (pairsStaff.serve (pairsStaff.host 0)) n 0).2.1.options.dfa = false := by
    have hkeeps : (pairsStaff.serve (pairsStaff.host 0)).Keeps
        fun lx => History pairs lx ∧ lx.options = (Lexer.configured pairs).options :=
      ⟨fun hl _ _ _ => hl, fun hl _ _ _ => hl⟩
    have hkept := (History.steady_options pairs _).lexUnless hkeeps (fun _ => none) n
      ⟨(History.configured pairs).attach (.ofReader "abxy" (.broken "io") "f"),
        (attached_attachSource _ _).options⟩ 0
    rw [Lexer.lex, pairsBroken, hkept.2]
    decide +kernel
  have hstaff : pairsStaff.Within
      (fun a b => a = (Source.ofReader "abxy" (.broken "io") "f").name ∧
        b = (Source.ofReader "abxyzz" .ended "g").name) (fun r => r.source? = none) False :=
    ⟨fun _ _ _ => trivial, fun _ _ _ _ _ _ => rfl, fun _ _ _ => trivial⟩
  obtain ⟨-, hends⟩ := read_error_only_truncates (History.configured pairs) rfl ⟨_, rfl⟩ hstaff
    (pairsStaff.host 0) 0 (show 5 ≤ 7 by decide)
  obtain ⟨e, houtcome, -, hread | ⟨e', -, -, -, htrace⟩⟩ := hends hoff (by decide)
  · rw [← pairsBroken, hfailed] at houtcome
    cases houtcome
    cases hread
  · exact ⟨hlength, htrace, hfailed, hfailed'⟩

end Munch
