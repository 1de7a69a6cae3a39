import Munch.Proofs.Bytes.Scan
import Munch.Proofs.Steps

/-!
# What matchers keep is never out of date

A lexer keeps machines for its states, compiled rules, the input as bytes, and scanners on it. All
of it is used again and again while rules are registered, options are switched and sources are
attached, also in the middle of a scan.

* `Lexer.Fresh es lx`: whatever `lx` would use again, after the events `es`, is good for the rules
  it has now and for the source attached last.

Results:
* `Machine.run_congr`: two machines for the same rules find the same match in any window.
* `Lexer.Fresh.looks`: looking for a match keeps a lexer fresh.
* `fresh_of_run`: every lexer is fresh, whatever calls were made.
* **`matchers_up_to_date`**: a match is always looked for with the rules of now.
-/

namespace Munch

variable {α η υ : Type}

/-! ## Machines for the same rules -/

namespace Track

/-- Two tracks for the same rule with the same threads, in whatever order. -/
def Alike (t t' : Track α) : Prop :=
  t.rule = t'.rule ∧ ∀ a, a ∈ t.threads.dense.toList ↔ a ∈ t'.threads.dense.toList

theorem Alike.start {t t' : Track α} (h : t.rule = t'.rule) (g : Gap) :
    (t.start g).Alike (t'.start g) := by
  obtain ⟨rule, threads, spare⟩ := t
  obtain ⟨rule', threads', spare'⟩ := t'
  cases h
  refine ⟨rfl, fun a => ?_⟩
  show a ∈ (rule.program.gather _ _ _).dense.toList ↔ a ∈ (rule.program.gather _ _ _).dense.toList
  rw [Program.mem_gather, Program.mem_gather]

theorem Alike.advance {t t' : Track α} (h : t.Alike t') (r : Rune) (g : Gap) :
    (t.advance r g).Alike (t'.advance r g) := by
  obtain ⟨rule, threads, spare⟩ := t
  obtain ⟨rule', threads', spare'⟩ := t'
  obtain ⟨hrule, hthreads⟩ := h
  cases hrule
  refine ⟨rfl, fun a => ?_⟩
  show a ∈ (rule.program.gather _ _ _).dense.toList ↔ a ∈ (rule.program.gather _ _ _).dense.toList
  rw [Program.mem_gather, Program.mem_gather]
  show a ∈ rule.program.advance threads.dense.toList r g ↔
    a ∈ rule.program.advance threads'.dense.toList r g
  rw [Program.mem_advance, Program.mem_advance]
  simp only [hthreads]

theorem Alike.accepts {t t' : Track α} (h : t.Alike t') : t.accepts = t'.accepts := by
  have hrule := congrArg (fun r : Rule α => r.program.accepts t.threads.dense.toList) h.1
  exact hrule.trans (Program.accepts_congr h.2)

theorem Alike.waits {t t' : Track α} (h : t.Alike t') : t.waits = t'.waits := by
  have hrule := congrArg (fun r : Rule α => r.program.waits t.threads.dense.toList) h.1
  exact hrule.trans (Program.waits_congr h.2)

end Track

namespace Machine

theorem race_congr {ts ts' : List (Track α)} (h : List.Forall₂ Track.Alike ts ts')
    (fuel length : Nat) (best : Option Hit) (rune : Rune) (passed : List Rune) (w : Window) :
    (race fuel length best ts rune passed w).1 = (race fuel length best ts' rune passed w).1 ∧
      (race fuel length best ts rune passed w).2.1 =
        (race fuel length best ts' rune passed w).2.1 := by
  induction fuel generalizing length best ts ts' rune passed w with
  | zero => exact ⟨rfl, rfl⟩
  | succ fuel ih =>
    have hwaits : ts.any Track.waits = ts'.any Track.waits := by
      induction h with
      | nil => rfl
      | cons ht _ ih => rw [List.any_cons, List.any_cons, ht.waits, ih]
    have hadvance (g : Gap) :
        List.Forall₂ Track.Alike (ts.map (Track.advance rune g))
          (ts'.map (Track.advance rune g)) := by
      rw [List.forall₂_map_left_iff, List.forall₂_map_right_iff]
      exact h.imp fun _ _ ht => ht.advance rune g
    have haccepts {us us' : List (Track α)} (hus : List.Forall₂ Track.Alike us us') :
        us.findIdx? Track.accepts = us'.findIdx? Track.accepts := by
      induction hus with
      | nil => rfl
      | cons ht _ ih => rw [List.findIdx?_cons, List.findIdx?_cons, ht.accepts, ih]
    rw [race, race, ← hwaits]
    split
    · simp only
      rw [haccepts (hadvance _)]
      exact ih (hadvance _) _ _ _ _ _
    · exact ⟨rfl, rfl⟩

/-- **Machines for the same rules find the same match** in any window: what earlier runs left in
their queues makes no difference. -/
theorem run_congr {m m' : Machine α} (h : m.rules = m'.rules) (w : Window) :
    (m.run w).1 = (m'.run w).1 ∧ (m.run w).2.1 = (m'.run w).2.1 := by
  refine race_congr ?_ _ _ _ _ _ _
  have hrules : List.Forall₂ (fun t t' : Track α => t.rule = t'.rule) m.tracks m'.tracks := by
    rwa [← List.forall₂_map_right_iff (R := fun (t : Track α) r => t.rule = r),
      ← List.forall₂_map_left_iff (R := fun r r' : Rule α => r = r'), List.forall₂_eq_eq_eq]
  rw [List.forall₂_map_left_iff, List.forall₂_map_right_iff]
  exact hrules.imp fun _ _ hr => Track.Alike.start hr _

end Machine

/-- A fresh matcher finds what a new one would, in any window. -/
theorem RuneMatcher.Fresh.longest_eq_new {m : RuneMatcher α} {t : RuleTable α} (h : m.Fresh t)
    (state : Text) (w : Window) :
    (m.longest t state w).1 = (({} : RuneMatcher α).longest t state w).1 ∧
      (m.longest t state w).2.1 = (({} : RuneMatcher α).longest t state w).2.1 := by
  have hrules := h.machineFor_rules state
  have hrules' := (fresh_new t).machineFor_rules state
  obtain ⟨hhit, hwindow⟩ := Machine.run_congr (hrules.trans hrules'.symm) w
  refine ⟨?_, hwindow⟩
  unfold RuneMatcher.longest
  simp only [hhit, hrules, hrules']

/-! ## Fresh lexers -/

/-- Compiled rules and their programs belong together, and the fingerprint is that of the rules. -/
def ByteRules.Sound (c : ByteRules α) : Prop :=
  c.fingerprint = c.rules.map (·.bytePattern) ∧ Lexer.Compiles c.rules c.programs

/-- Rules with the same patterns are compiled to the same programs. -/
theorem ByteRules.Sound.update {c : ByteRules α} (h : c.Sound) {rules : List (Rule α)}
    (hf : c.fingerprint = rules.map (·.bytePattern)) :
    ({ c with rules := rules } : ByteRules α).Sound := by
  obtain ⟨hprint, hcompiles⟩ := h
  refine ⟨hf, ?_⟩
  have hmap : c.rules.map (·.bytePattern) = rules.map (·.bytePattern) := hprint.symm.trans hf
  obtain ⟨hnil, hps⟩ | hps := hcompiles
  · rw [hnil, List.map_nil] at hmap
    exact .inl ⟨List.map_eq_nil_iff.mp hmap.symm, hps⟩
  · rw [hmap] at hps
    exact .inr hps

namespace Lexer

/-- What the lexer would use again is good for its rules and for the source attached last. -/
structure Fresh (es : List (Event α υ)) (lx : Lexer α η) : Prop where
  window : ∀ w, lx.window = some w → ∃ s, lastSource es = some s ∧ w.Over s.pending s.reason
  runes : lx.runes.Fresh lx.rules
  compiled : ∀ state c, lx.bytes.compiled.lookup state = some c → c.Sound
  /-- the source was read completely, and the text follows the cursor -/
  text : ∀ text, lx.bytes.text = some text → ∃ s w, lastSource es = some s ∧ lx.window = some w ∧
    w.ahead = s.pending.drop w.offset ∧ text.Follows s.pending w.offset
  scanners : ∀ state scanner, lx.bytes.scanners.lookup state = some scanner →
    ∃ c text, lx.bytes.compiled.lookup state = some c ∧ lx.bytes.text = some text ∧
      scanner = ⟨c.programs, text.bytes⟩

theorem lookup_filter_ne {β : Type} (state k : Text) (l : List (Text × β)) :
    (l.filter (·.1 != state)).lookup k = if k = state then none else l.lookup k := by
  induction l with
  | nil => simp
  | cons entry l ih =>
    obtain ⟨k', v⟩ := entry
    by_cases hs : k' = state
    · subst hs
      by_cases hk : k = k'
      · simpa [hk] using ih
      · simp [hk, ih, List.lookup_cons, beq_eq_false_iff_ne.mpr hk]
    · by_cases hk : k = k'
      · subst hk
        simp [hs]
      · simp [hs, ih, List.lookup_cons, beq_eq_false_iff_ne.mpr hk]

/-! ### What a search does to a lexer, one thing at a time -/

section Searching

variable {es : List (Event α υ)} {lx : Lexer α η}

/-- Whatever more of the input was looked at, a text behind the cursor has nothing left to read. -/
theorem Fresh.read (h : Fresh es lx) {w w' : Window} (hw : lx.window = some w)
    (hr : Window.Reads w w') : Fresh es { lx with window := some w' } := by
  refine ⟨?_, h.runes, h.compiled, fun text htext => ?_, h.scanners⟩
  · rintro v ⟨⟩
    obtain ⟨s, hs, hover⟩ := h.window w hw
    exact ⟨s, hs, hr.onto hover⟩
  · obtain ⟨s, v, hs, hv, hahead, hfollows⟩ := h.text text htext
    cases hw.symm.trans hv
    obtain ⟨s', hs', hover⟩ := h.window w hw
    cases hs.symm.trans hs'
    exact ⟨s, w', hs, rfl, hr.ahead_eq hover hahead, hr.fixed.1 ▸ hfollows⟩

/-- The rest of the input is all of the source from the cursor on. -/
theorem Fresh.buffer (h : Fresh es lx) {w : Window} (hw : lx.window = some w) :
    Fresh es { lx with
      window := some w.drain
      bytes := { lx.bytes with
        text := some ⟨(Bytes.encode w.drain.ahead).toArray, w.drain.offset, 0⟩
        scanners := [] } } := by
  obtain ⟨s, hs, hover⟩ := h.window w hw
  have hdrain := Window.reads_drain w
  refine ⟨?_, h.runes, h.compiled, ?_, ?_⟩
  · rintro v ⟨⟩
    exact ⟨s, hs, hdrain.onto hover⟩
  · rintro text ⟨⟩
    refine ⟨s, w.drain, hs, rfl, by rw [hover.drain, hdrain.fixed.1], ?_⟩
    rw [hover.drain, hdrain.fixed.1]
    exact Bytes.ByteText.Follows.new _ _
  · rintro state scanner ⟨⟩

/-- The programs stay, so that a scanner made for them is still theirs. -/
theorem Fresh.reuse (h : Fresh es lx) {state : Text} {c : ByteRules α}
    (hc : lx.bytes.compiled.lookup state = some c)
    (hf : c.fingerprint = (lx.rules.rulesFor state).map (·.bytePattern)) :
    Fresh es { lx with bytes := { lx.bytes with
      compiled := RuleTable.update state { c with rules := lx.rules.rulesFor state }
        lx.bytes.compiled } } := by
  refine ⟨h.window, h.runes, fun k d hd => ?_, h.text, fun k scanner hscanner => ?_⟩
  · simp only [RuleTable.lookup_update] at hd
    split at hd
    · cases hd
      exact (h.compiled state c hc).update hf
    · exact h.compiled k d hd
  · obtain ⟨d, text, hd, htext, heq⟩ := h.scanners k scanner hscanner
    simp only [RuleTable.lookup_update]
    split
    next hk =>
      subst hk
      cases hc.symm.trans hd
      exact ⟨_, text, rfl, htext, heq⟩
    · exact ⟨d, text, hd, htext, heq⟩

/-- The scanner of the state goes with the programs it was made for. -/
theorem Fresh.compile (h : Fresh es lx) {state : Text} {ps : List Program}
    (hps : Compiles (lx.rules.rulesFor state) ps) :
    Fresh es { lx with bytes := { lx.bytes with
      compiled := RuleTable.update state
        ⟨(lx.rules.rulesFor state).map (·.bytePattern), lx.rules.rulesFor state, ps⟩
        lx.bytes.compiled
      scanners := lx.bytes.scanners.filter (·.1 != state) } } := by
  refine ⟨h.window, h.runes, fun k d hd => ?_, h.text, fun k scanner hscanner => ?_⟩
  · simp only [RuleTable.lookup_update] at hd
    split at hd
    · cases hd
      exact ⟨rfl, hps⟩
    · exact h.compiled k d hd
  · simp only [lookup_filter_ne] at hscanner
    split at hscanner
    · cases hscanner
    next hk =>
      obtain ⟨d, text, hd, htext, heq⟩ := h.scanners k scanner hscanner
      simp only [RuleTable.lookup_update, if_neg hk]
      exact ⟨d, text, hd, htext, heq⟩

/-- Moving the text leaves its bytes, which are all that a scanner keeps of it. -/
theorem Fresh.move (h : Fresh es lx) {text : Bytes.ByteText} {w : Window}
    (htext : lx.bytes.text = some text) (hw : lx.window = some w) :
    Fresh es { lx with bytes := { lx.bytes with text := some (text.moveTo w.offset) } } := by
  have hbytes : (text.moveTo w.offset).bytes = text.bytes := Bytes.ByteText.skip_bytes _ _
  refine ⟨h.window, h.runes, h.compiled, ?_, fun k scanner hscanner => ?_⟩
  · rintro moved ⟨⟩
    obtain ⟨s, v, hs, hv, hahead, hfollows⟩ := h.text text htext
    cases hw.symm.trans hv
    exact ⟨s, w, hs, hw, hahead, hfollows.moveTo⟩
  · obtain ⟨c, text', hc, htext', heq⟩ := h.scanners k scanner hscanner
    cases htext.symm.trans htext'
    exact ⟨c, _, hc, rfl, by rw [hbytes]; exact heq⟩

/-- A new scanner is for the compiled rules and the text of now. -/
theorem Fresh.scan (h : Fresh es lx) {state : Text} {c : ByteRules α} {text : Bytes.ByteText}
    (hc : lx.bytes.compiled.lookup state = some c) (htext : lx.bytes.text = some text) :
    Fresh es { lx with bytes := { lx.bytes with
      scanners := RuleTable.update state ⟨c.programs, text.bytes⟩ lx.bytes.scanners
      trails := RuleTable.update state {} lx.bytes.trails } } := by
  refine ⟨h.window, h.runes, h.compiled, h.text, fun k scanner hscanner => ?_⟩
  simp only [RuleTable.lookup_update] at hscanner
  split at hscanner
  next hk =>
    subst hk
    cases hscanner
    exact ⟨c, text, hc, htext, rfl⟩
  · exact h.scanners k scanner hscanner

/-- **Looking for a match keeps a lexer fresh.** -/
theorem Fresh.looks {lx' : Lexer α η} (h : Fresh es lx) (hl : Looks lx lx') : Fresh es lx' := by
  induction hl with
  | refl => exact h
  | note _ _ _ ih | phase _ _ ih | attempt _ _ ih =>
    exact ⟨ih.window, ih.runes, ih.compiled, ih.text, ih.scanners⟩
  | read _ hw hr ih => exact ih.read hw hr
  | runes _ state w ih =>
    exact ⟨ih.window, ih.runes.longest_snd state w, ih.compiled, ih.text, ih.scanners⟩
  | buffer _ hw ih => exact ih.buffer hw
  | reuse _ hc hf ih => exact ih.reuse hc hf
  | compile _ hps ih => exact ih.compile hps
  | move _ htext hw ih => exact ih.move htext hw
  | scan _ hc htext ih => exact ih.scan hc htext

end Searching

/-! ### What calls do to a lexer -/

/-- Only the window, the rules and what matchers keep decide whether a lexer is fresh. -/
theorem Fresh.congr {es fs : List (Event α υ)} {lx lx' : Lexer α η} (h : Fresh es lx)
    (hs : lastSource fs = lastSource es) (hw : lx'.window = lx.window)
    (hrules : lx'.rules = lx.rules) (hrunes : lx'.runes = lx.runes)
    (hbytes : lx'.bytes = lx.bytes) : Fresh fs lx' := by
  refine ⟨?_, ?_, ?_, ?_, ?_⟩
  · rw [hw, hs]
    exact h.window
  · rw [hrunes, hrules]
    exact h.runes
  · rw [hbytes]
    exact h.compiled
  · rw [hbytes, hw, hs]
    exact h.text
  · rw [hbytes]
    exact h.scanners

/-- Registration makes no lexer outdated: a change of the rules shows in their version. -/
theorem Fresh.registered {es : List (Event α υ)} {lx lx' : Lexer α η} (h : Fresh es lx)
    (hr : Registered lx lx') : Fresh es lx' := by
  have hrunes : lx'.runes.Fresh lx'.rules := by
    rw [hr.runes]
    obtain hsame | hlater := hr.rules
    · rw [hsame]
      exact h.runes
    · exact h.runes.later hlater
  refine ⟨?_, hrunes, ?_, ?_, ?_⟩
  · rw [hr.window]
    exact h.window
  · rw [hr.bytes]
    exact h.compiled
  · rw [hr.bytes, hr.window]
    exact h.text
  · rw [hr.bytes]
    exact h.scanners

/-- Moving the cursor keeps a lexer fresh. -/
theorem Fresh.consumed {es : List (Event α υ)} {lx : Lexer α η} (h : Fresh es lx) {w : Window}
    (hw : lx.window = some w) {n : Nat} (hn : w.keeps n = true) : Fresh es (lx.consumed n w) := by
  refine ⟨?_, h.runes, h.compiled, fun text htext => ?_, h.scanners⟩
  · rintro v ⟨⟩
    obtain ⟨s, hs, hover⟩ := h.window w hw
    exact ⟨s, hs, hover.consume (Window.keeps_iff.mp hn)⟩
  · obtain ⟨s, v, hs, hv, hahead, hfollows⟩ := h.text text htext
    cases hw.symm.trans hv
    refine ⟨s, _, hs, rfl, ?_, hfollows.mono (Nat.le_add_right _ n)⟩
    show w.ahead.drop n = s.pending.drop (w.offset + n)
    rw [hahead, List.drop_drop]

theorem Fresh.onto {es : List (Event α υ)} {lx : Lexer α η} (h : Fresh es lx) :
    ∀ w, lx.window = some w → ∃ R stop, w.Over R stop := by
  intro w hw
  obtain ⟨s, -, hover⟩ := h.window w hw
  exact ⟨_, _, hover⟩

/-- Being fresh is kept by every call, and by every part of a step. -/
theorem invariant_fresh : Invariant (Fresh (α := α) (η := η) (υ := υ)) where
  register h s := h.registered (Setting.registered _ s)
  begin := by
    intro es lx lx' h state hbegin
    unfold Lexer.begin at hbegin
    split at hbegin
    · cases hbegin
    · split at hbegin <;> cases hbegin
      · exact h
      · exact h.congr rfl rfl rfl rfl rfl
  attach := by
    intro es lx h s
    have ha := attached_attachSource lx s
    refine ⟨fun w hw => ?_, ?_, ?_, ?_, ?_⟩
    · cases ha.window.symm.trans hw
      exact ⟨s, lastSource_attached es s, Window.over_ofSource s⟩
    · rw [ha.runes, ha.rules]
      exact h.runes
    · rw [ha.bytes]
      exact h.compiled
    · rw [ha.bytes]
      rintro text ⟨⟩
    · rw [ha.bytes]
      rintro state scanner ⟨⟩
  fail h e := h.congr rfl rfl rfl rfl rfl
  note h level n := h.congr rfl rfl rfl rfl rfl
  stop := by
    intro es lx lx' p h haim
    have hl := looks_of_aim h.onto haim
    exact (h.looks hl).congr (lastSource_append (stopEvents_attaches p)) rfl rfl rfl rfl
  broken := by
    intro es lx lx' t n w h haim
    have hl := looks_of_aim h.onto haim
    exact h.looks (hl.phase _)
  dispatched := by
    intro es lx lx' t n w h haim hkeeps
    have hl := looks_of_aim h.onto haim
    have hf := (h.looks (hl.phase .dispatching)).consumed (aim_take h.onto haim).1 hkeeps
    exact hf.congr (lastSource_append (by simp [Event.attaches])) rfl rfl rfl rfl
  delivered h t := h.congr (lastSource_append (by simp [Event.attaches])) rfl rfl rfl rfl
  returned h := h.congr (lastSource_append (by simp [Event.attaches])) rfl rfl rfl rfl
  resumed h _ := h.congr rfl rfl rfl rfl rfl

/-- A new lexer has nothing to use again. -/
theorem fresh_new : Fresh ([] : List (Event α υ)) ({} : Lexer α η) where
  window := by rintro w ⟨⟩
  runes := RuneMatcher.fresh_new _
  compiled := by rintro state c ⟨⟩
  text := by rintro text ⟨⟩
  scanners := by rintro state scanner ⟨⟩

end Lexer

/-- **Every lexer is fresh**, whatever calls were made from within and without a scan. -/
theorem fresh_of_run {es : List (Event α υ)} {lx : Lexer α η} (run : Run {} es lx) : lx.Fresh es :=
  Lexer.invariant_fresh.of_run run Lexer.fresh_new

/-- A search over bytes is set up with what is current: the rules that the active state has in `lx`,
what their patterns compile to, and a scanner for just that, on the text of the source `s` from a
rune on that lies not behind the cursor. -/
structure Lexer.ByteSetup.Current (u : Lexer.ByteSetup α) (lx : Lexer α η) (s : Source)
    (w : Window) : Prop where
  rules : u.rules.rules = lx.rules.rulesFor lx.context.state
  programs : Bytes.compile ((lx.rules.rulesFor lx.context.state).map (·.bytePattern)) =
    .programs u.rules.programs
  scanner : u.scanner = ⟨u.rules.programs, u.text.bytes⟩
  text : ∃ k ≤ w.offset, u.text.bytes = (Bytes.encode (s.pending.drop k)).toArray

/-- A fresh lexer sets up a search over bytes with what is current. -/
theorem Lexer.Fresh.byteSetup {es : List (Event α υ)} {lx : Lexer α η} (h : lx.Fresh es)
    {w : Window} (hw : lx.window = some w) {u : Lexer.ByteSetup α}
    (hu : (lx.byteSetup w).1 = .ok u) :
    ∃ s, lastSource es = some s ∧ u.Current lx s w := by
  have hsetup := Lexer.setUp_byteSetup hw
  have hf := h.looks hsetup.looks
  obtain ⟨hkept, hrules, hne⟩ := hsetup.rules u hu
  obtain ⟨htext, -⟩ := hsetup.text u hu
  obtain ⟨c, text, hc, htext', hscanner⟩ := hf.scanners _ _ (hsetup.scanner u hu)
  cases hkept.symm.trans hc
  cases htext.symm.trans htext'
  obtain ⟨s, w', hs, hw', -, hfollows⟩ := hf.text _ htext
  obtain ⟨w'', hw'', hreads⟩ := hsetup.looks.window hw
  cases hw'.symm.trans hw''
  refine ⟨s, hs, hrules, ?_, hscanner, hreads.fixed.1 ▸ hfollows.bytes⟩
  obtain ⟨-, ⟨hnil, -⟩ | hps⟩ := hf.compiled _ _ hkept
  · exact absurd hnil hne
  · rw [← hrules, hps]

/-- **A match is always looked for with the rules of now.** In any lexer that calls can lead to, and
also while it is looking for a match: a search over runes finds, in any state and window, what a new
matcher for the rules of now finds, and a search over bytes is set up with what is current. -/
theorem matchers_up_to_date {es : List (Event α υ)} {lx lx' : Lexer α η} (run : Run {} es lx)
    (looks : lx.Looks lx') :
    (∀ state w, (lx'.runes.longest lx'.rules state w).1 =
        (({} : RuneMatcher α).longest lx'.rules state w).1) ∧
      (∀ state w r n, (lx'.runes.longest lx'.rules state w).1 = some (r, n) →
        r ∈ lx'.rules.rulesFor state) ∧
      ∀ w u, lx'.window = some w → (lx'.byteSetup w).1 = .ok u →
        ∃ s, lastSource es = some s ∧ u.Current lx' s w := by
  have hf := (fresh_of_run run).looks looks
  refine ⟨fun state w => (hf.runes.longest_eq_new state w).1, fun state w r n hr => ?_,
    fun w u hw hu => hf.byteSetup hw hu⟩
  obtain ⟨hit, -, hmap⟩ := Option.bind_eq_some_iff.mp hr
  obtain ⟨rule, hrule, heq⟩ := Option.map_eq_some_iff.mp hmap
  cases heq
  rw [hf.runes.machineFor_rules state] at hrule
  exact List.mem_of_getElem? hrule

/-- A lexer for bytes whose only rule got another action after a source was attached. -/
def overwritten : Lexer Nat Unit :=
  let before : Lexer Nat Unit := .configured [.option "dfa" true, .rule "a" (some 1)]
  (Setting.rule "a" (some 2)).apply (before.attachSource (.ofText "ab"))

set_option maxRecDepth 10000 in
theorem matchers_up_to_date_overwritten :
    (∃ r,
      (overwritten.runes.longest overwritten.rules States.initial (.ofSource (.ofText "ab"))).1 =
        some (r, 1) ∧ r.action = some 2 ∧ r ∈ overwritten.rules.rulesFor States.initial) ∧
      ∃ u, (overwritten.byteSetup (.ofSource (.ofText "ab"))).1 = .ok u ∧
        u.Current overwritten (.ofText "ab") (.ofSource (.ofText "ab")) := by
  have run : Run (υ := Unit) {} [.attached (.ofText "ab")] overwritten :=
    (((Run.nil {}).settings [.option "dfa" true, .rule "a" (some 1)]).attach
      (.ofText "ab")).register (.rule "a" (some 2))
  obtain ⟨-, hmem, hsetup⟩ := matchers_up_to_date run .refl
  refine ⟨?_, ?_⟩
  · have hhit : ((overwritten.runes.longest overwritten.rules States.initial
        (.ofSource (.ofText "ab"))).1.map fun hit => (hit.1.action, hit.2)) = some (some 2, 1) := by
      decide +kernel
    obtain ⟨⟨r, n⟩, hr, heq⟩ := Option.map_eq_some_iff.mp hhit
    obtain ⟨haction, rfl⟩ := Prod.mk.inj heq
    exact ⟨r, hr, haction, hmem _ _ _ _ hr⟩
  · cases hu : (overwritten.byteSetup (.ofSource (.ofText "ab"))).1 with
    | error e =>
      have hok : (overwritten.byteSetup (.ofSource (.ofText "ab"))).1.isOk = true := by
        decide +kernel
      rw [hu] at hok
      cases hok
    | ok u =>
      obtain ⟨s, hs, hcurrent⟩ := hsetup _ u rfl hu
      cases hs
      exact ⟨u, rfl, hcurrent⟩

end Munch
