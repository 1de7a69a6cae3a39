import Munch.Proofs.ScanLikeness

/-!
# Looking for a match where input breaks off

A source breaks off with a read error where another one goes on. As long as both have delivered the
same runes, a lexer finds the same match in both, or it meets the error.

* `Window.Synced message w w'`: both windows have read the same runes, and neither has met an end;
  the source of `w` has fewer runes to come than that of `w'`, and breaks off with `message`.
* `Error.Agrees`: the errors that end both scans at the same place. They may show different runes
  behind it.
* `Lexer.Forked`: how looking for a match goes on from there.

Results:
* `Machine.run_synced`: a contest meets the read error, or goes the same way in both windows.
* `Lexer.Alike.aim_synced` and `Lexer.aim_buffered`: so does a lexer that looks for a match among
  runes; one that reads the whole input first meets the error.
-/

namespace Munch

open Lexer

variable {α η υ ω : Type}

/-! ## Windows that have read the same runes -/

namespace Window

/-- The windows have read the same runes and not met an end. The source of the first one breaks off
with `message`, where that of the second one may go on. -/
structure Synced (message : Text) (w w' : Window) : Prop where
  ahead : w.ahead = w'.ahead
  offset : w.offset = w'.offset
  prev : w.prev = w'.prev
  pending : w.source.pending <+: w'.source.pending
  reason : w.source.reason = .broken message
  ending : w.ending = none
  ending' : w'.ending = none

variable {message : Text} {w w' : Window}

theorem synced_ofSource {F G : Source} (hpending : F.pending <+: G.pending)
    (hreason : F.reason = .broken message) : Synced message (ofSource F) (ofSource G) :=
  ⟨rfl, rfl, rfl, hpending, hreason, rfl, rfl⟩

theorem failure?_of_ending (h : w.ending = some (.failed message)) : w.failure? = some message := by
  rw [failure?, h]

/-- The end that a window finds on an input that breaks off is the read error. -/
theorem Over.ending_broken {R : List Rune} (h : w.Over R (.broken message))
    (hend : w.ending.isSome) : w.ending = some (.failed message) := by
  obtain ⟨e, he⟩ := Option.isSome_iff_exists.mp hend
  rw [he, Ending.eq_failed (h.ending e he)]

namespace Synced

theorem failure? (h : Synced message w w') : w.failure? = none ∧ w'.failure? = none := by
  unfold Window.failure?
  rw [h.ending, h.ending']
  exact ⟨rfl, rfl⟩

/-- **One more rune is the same one**, or it is the read error. -/
theorem pull (h : Synced message w w') :
    (w.pull.ahead = w.ahead ∧ w.pull.ending = some (.failed message)) ∨
      ∃ r, w.pull.ahead = w.ahead ++ [r] ∧ Synced message w.pull w'.pull := by
  obtain ⟨hreason, hending⟩ := pull_reason w
  cases hp : w.source.pending with
  | nil =>
    obtain ⟨hend, hahead⟩ := pull_nil hp
    refine .inl ⟨hahead, ?_⟩
    obtain ⟨e, he⟩ := Option.isSome_iff_exists.mp hend
    obtain hsame | hbroken := hending e he
    · rw [h.ending] at hsame
      cases hsame
    · rw [he, Ending.eq_failed (hbroken.trans h.reason)]
  | cons r rest =>
    obtain ⟨rest', hp'⟩ := h.pending
    rw [hp, List.cons_append] at hp'
    obtain ⟨hahead, hnone, hpending⟩ := pull_cons h.ending hp
    obtain ⟨hahead', hnone', hpending'⟩ := pull_cons h.ending' hp'.symm
    obtain ⟨hoffset, hprev, -⟩ := pull_fixed w
    obtain ⟨hoffset', hprev', -⟩ := pull_fixed w'
    refine .inr ⟨r, hahead, ?_⟩
    exact
      { ahead := by rw [hahead, hahead', h.ahead]
        offset := by rw [hoffset, hoffset', h.offset]
        prev := by rw [hprev, hprev', h.prev]
        pending := by
          rw [hpending, hpending']
          exact List.prefix_append rest rest'
        reason := hreason.trans h.reason
        ending := hnone
        ending' := hnone' }

/-- **The rune at the cursor is the same one**, or it is the read error. -/
theorem peek (h : Synced message w w') :
    (w.peek.1 = none ∧ w.peek.2.ending = some (.failed message)) ∨
      ∃ r rest, w.peek.1 = some r ∧ w'.peek.1 = some r ∧ w.peek.2.ahead = r :: rest ∧
        Synced message w.peek.2 w'.peek.2 := by
  cases ha : w.ahead with
  | cons r rest =>
    have ha' : w'.ahead = r :: rest := h.ahead ▸ ha
    unfold Window.peek
    rw [ha, ha']
    exact .inr ⟨r, rest, rfl, rfl, ha, h⟩
  | nil =>
    have ha' : w'.ahead = [] := h.ahead ▸ ha
    unfold Window.peek
    rw [ha, ha']
    obtain ⟨hsame, hfailed⟩ | ⟨r, hr, hpull⟩ := h.pull
    · refine .inl ⟨?_, hfailed⟩
      simp only [hsame, ha, List.head?_nil]
    · rw [ha, List.nil_append] at hr
      refine .inr ⟨r, [], ?_, ?_, hr, hpull⟩
      · simp only [hr, List.head?_cons]
      · simp only [← hpull.ahead, hr, List.head?_cons]

theorem advance (h : Synced message w w') : Synced message w.advance w'.advance where
  ahead := by rw [Window.advance, Window.advance, h.ahead]
  offset := h.offset
  prev := h.prev
  pending := h.pending
  reason := h.reason
  ending := h.ending
  ending' := h.ending'

theorem rewind (h : Synced message w w') (passed : List Rune) :
    Synced message (w.rewind passed) (w'.rewind passed) where
  ahead := by rw [rewind_eq, rewind_eq, h.ahead]
  offset := h.offset
  prev := h.prev
  pending := h.pending
  reason := h.reason
  ending := h.ending
  ending' := h.ending'

theorem consume (h : Synced message w w') (n : Nat) :
    Synced message (w.consume n).2 (w'.consume n).2 where
  ahead := by rw [Window.consume, Window.consume, h.ahead]
  offset := by rw [Window.consume, Window.consume, h.offset]
  prev := by rw [Window.consume, Window.consume, h.ahead, h.prev]
  pending := h.pending
  reason := h.reason
  ending := h.ending
  ending' := h.ending'

end Synced

end Window

/-! ## Contests -/

namespace Machine

open Window

/-- A contest in a window that has met its end leaves it so. -/
theorem race_ending {e : Ending} (fuel length : Nat) (best : Option Hit) (tracks : List (Track α))
    (rune : Rune) (passed : List Rune) {w : Window} (h : w.ending = some e) :
    (race fuel length best tracks rune passed w).2.1.ending = some e := by
  induction fuel generalizing length best tracks rune passed w with
  | zero => exact h
  | succ fuel ih =>
    rw [race]
    split
    · have hadvance : w.advance.ending = some e := h
      exact ih _ _ _ _ _ ((reads_peek w.advance).ending hadvance)
    · exact h

/-- **A contest meets the read error, or goes the same way in both windows.** The induction is on
the fuel, of which there is enough for the runes that are left in each window. -/
theorem race_synced {message : Text} (fuel fuel' length : Nat) (best : Option Hit)
    (tracks : List (Track α)) (rune : Rune) (passed : List Rune) {w w' : Window}
    (h : Synced message w w') (hrune : ∃ rest, w.ahead = rune :: rest)
    (hfuel : (w.ahead ++ w.unread).length < fuel)
    (hfuel' : (w'.ahead ++ w'.unread).length < fuel') :
    (race fuel length best tracks rune passed w).2.1.ending = some (.failed message) ∨
      (race fuel length best tracks rune passed w).1 =
        (race fuel' length best tracks rune passed w').1 ∧
        Synced message (race fuel length best tracks rune passed w).2.1
          (race fuel' length best tracks rune passed w').2.1 := by
  induction fuel generalizing fuel' length best tracks rune passed w w' with
  | zero => exact absurd hfuel (Nat.not_lt_zero _)
  | succ fuel ih =>
    obtain ⟨fuel', rfl⟩ := Nat.exists_eq_succ_of_ne_zero (Nat.ne_of_gt (Nat.zero_lt_of_lt hfuel'))
    rw [race, race]
    split
    · obtain ⟨rest, hahead⟩ := hrune
      have hleft {v : Window} (hv : v.ahead = rune :: rest) {n : Nat}
          (hn : (v.ahead ++ v.unread).length < n + 1) :
          (v.advance.peek.2.ahead ++ v.advance.peek.2.unread).length < n := by
        rw [(reads_peek v.advance).rest]
        rw [hv, List.cons_append, List.length_cons] at hn
        simpa [Window.advance, hv, Window.unread] using hn
      obtain ⟨-, hfailed⟩ | ⟨r, rest', hr, hr', hrest', hpeek⟩ := h.advance.peek
      · exact .inl (race_ending _ _ _ _ _ _ hfailed)
      · simp only [hr, hr', Option.getD_some]
        exact ih fuel' _ _ _ r _ hpeek ⟨rest', hrest'⟩ (hleft hahead hfuel)
          (hleft (h.ahead ▸ hahead) hfuel')
    · exact .inr ⟨rfl, h.rewind passed⟩

/-- **A machine meets the read error, or finds the same match in both windows.** -/
theorem run_synced {message : Text} (m : Machine α) {w w' : Window} (h : Synced message w w')
    {R R' : List Rune} {stop stop' : Stop} (ho : w.Over R stop) (ho' : w'.Over R' stop') :
    (m.run w).2.1.ending = some (.failed message) ∨
      (m.run w).1 = (m.run w').1 ∧ Synced message (m.run w).2.1 (m.run w').2.1 := by
  unfold run
  simp only
  obtain ⟨-, hfailed⟩ | ⟨r, rest, hr, hr', hrest, hpeek⟩ := h.peek
  · exact .inl (race_ending _ _ _ _ _ _ hfailed)
  · simp only [hr, hr', Option.getD_some, h.prev]
    refine race_synced _ _ _ _ _ _ _ hpeek ⟨rest, hrest⟩ ?_ ?_
    · exact Nat.lt_succ_of_le ((reads_peek w).onto ho).left_le
    · exact Nat.lt_succ_of_le ((reads_peek w').onto ho').left_le

end Machine

/-! ## Looking for a match -/

/-- The lexers of two scans are alike but for their sources, of the names `name` and `name'`: the
first one breaks off with `message`, where the second one may go on. Neither was read completely. -/
def Likeness.truncated (message : Text) (name name' : Option Text) : Likeness η :=
  { Likeness.same η with
    name := fun a b => a = name ∧ b = name'
    input := fun a b => a.2 = none ∧ b.2 = none ∧ ∃ w w', a.1 = some w ∧ b.1 = some w' ∧
      w.Synced message w' }

/-- Two errors that end scans are the same, except that mismatches may show different runes behind
the one that does not match. -/
inductive Error.Agrees : Error → Error → Prop
  | action (line : Int) (text : Text) (reason : Error) :
      Agrees (.actionFailed line text reason) (.actionFailed line text reason)
  | token (name : Text) (line : Int) :
      Agrees (.undeclaredToken name line) (.undeclaredToken name line)
  | mismatch (line : Int) (state : Text) (rune : Rune) (shown shown' : Text) :
      Agrees (.noMatch ⟨line, state, rune, shown⟩) (.noMatch ⟨line, state, rune, shown'⟩)

/-- What looking for a match comes to in two lexers, the first of which has less input. -/
inductive Lexer.Forked (k : Likeness η) (message : Text) :
    Aim α × Lexer α η → Aim α × Lexer α η → Prop
  /-- the first one meets the read error -/
  | unreadable (lx : Lexer α η) (other : Aim α × Lexer α η) :
      Forked k message (.stop (.failed (readError message)), lx) other
  /-- nothing matches, in either of them -/
  | mismatch {e e' : Error} (he : e.Agrees e') (lx lx' : Lexer α η) :
      Forked k message (.stop (.failed e), lx) (.stop (.failed e'), lx')
  /-- both find the same match, and are as much alike as before -/
  | take (t : Taker α) (n : Nat) {w w' : Window} {lx lx' : Lexer α η} (hl : lx.Alike k lx')
      (hw : w.Synced message w') (hkeeps : w.keeps n = true) :
      Forked k message (.take t n w, lx) (.take t n w', lx')

namespace Lexer

variable {message : Text} {lx lx' : Lexer α η} {w w' : Window}

/-- After a read error nothing is dispatched, whatever the search came to. -/
theorem decideOn_unreadable (state : Text) (hit : Option (Rule α × Nat))
    (hf : w.failure? = some message) :
    lx.decideOn state (.ofHit hit) w = lx.refuse (readError message) := by
  obtain _ | ⟨r, _ | n⟩ := hit <;> simp only [Search.ofHit, decideOn, hf]

/-- The first rune that is shown with a mismatch is the one at the cursor. -/
theorem lookahead_headD {r : Rune} {rest : List Rune} (h : w.ahead = r :: rest) (n : Nat) :
    (w.lookahead (n + 1)).1.headD 0 = r := by
  obtain ⟨more, hmore⟩ := (Window.reads_fill w (n + 1)).ahead
  rw [h, List.cons_append] at hmore
  show ((w.fill (n + 1)).ahead.take (n + 1)).headD 0 = r
  rw [← hmore, List.take_succ_cons, List.headD_cons]

namespace Alike

variable {name name' : Option Text}

/-- **A search among runes meets the read error, or finds the same match in both windows.** -/
theorem searchRunes {k : Likeness η} (hl : Alike k lx lx') (h : Window.Synced message w w')
    {R R' : List Rune} {stop stop' : Stop} (ho : w.Over R stop) (ho' : w'.Over R' stop') :
    (lx.searchRunes w).2.1.ending = some (.failed message) ∨
      (lx.searchRunes w).1 = (lx'.searchRunes w').1 ∧
        Window.Synced message (lx.searchRunes w).2.1 (lx'.searchRunes w').2.1 := by
  obtain ⟨es, hf⟩ := hl.left
  obtain ⟨es', hf'⟩ := hl.right
  have hrules := hf.runes.machineFor_rules lx.context.state
  have hrules' := hf'.runes.machineFor_rules lx'.context.state
  rw [← hl.rules, ← hl.state] at hrules'
  obtain hfailed | ⟨hhit, hsynced⟩ :=
    (lx.runes.machineFor lx.rules lx.context.state).run_synced h ho ho'
  · exact .inl hfailed
  · -- what the second machine has kept from earlier contests makes no difference
    obtain ⟨hhit', hwindow'⟩ := Machine.run_congr (hrules.trans hrules'.symm) w'
    rw [hhit'] at hhit
    rw [hwindow'] at hsynced
    unfold Lexer.searchRunes RuneMatcher.longest
    simp only [← hl.rules, ← hl.state, hhit, hrules, hrules']
    exact .inr ⟨trivial, hsynced⟩

/-- What is to be done after a search that found the same in both windows. -/
theorem decideOn_synced (hl : Alike (.truncated message name name') lx lx')
    (h : Window.Synced message w w') (hw : lx.window = some w) (hw' : lx'.window = some w')
    (hne : w.ahead ≠ []) (hit : Option (Rule α × Nat))
    (hn : ∀ r n, hit = some (r, n) → 0 < n ∧ n ≤ w.ahead.length) (state : Text) :
    Forked (.truncated message name name') message (lx.decideOn state (.ofHit hit) w)
      (lx'.decideOn state (.ofHit hit) w') := by
  obtain ⟨hf, hf'⟩ := h.failure?
  cases hit with
  | some found =>
    obtain ⟨r, n⟩ := found
    obtain ⟨hpos, hlength⟩ := hn r n rfl
    rw [Search.ofHit, decideOn_found hpos hf, decideOn_found hpos hf']
    exact .take _ n hl h (Window.keeps_iff.mpr hlength)
  | none =>
    rw [Search.ofHit, decideOn_nothing hf, decideOn_nothing hf', ← hl.rules]
    cases lx.rules.defaultFor state with
    | some action =>
      exact .take _ 1 hl h (Window.keeps_iff.mpr (List.length_pos_iff.mpr hne))
    | none =>
      obtain ⟨r, rest, hahead⟩ := List.exists_cons_of_ne_nil hne
      have hcontext := (Looks.refl.see hw (Window.reads_lookahead w 16)).kept.context
      have hcontext' := (Looks.refl.see hw' (Window.reads_lookahead w' 16)).kept.context
      refine .mismatch ?_ _ _
      unfold Lexer.mismatch
      rw [hcontext, hcontext', ← hl.line, ← hl.state, lookahead_headD hahead,
        lookahead_headD (h.ahead ▸ hahead)]
      exact .mismatch _ _ _ _ _

theorem aimIn_synced (hl : Alike (.truncated message name name') lx lx')
    (h : Window.Synced message w w') (hw : lx.window = some w) (hw' : lx'.window = some w')
    (hdfa : lx.options.dfa = false) :
    Forked (.truncated message name name') message (lx.aimIn w) (lx'.aimIn w') := by
  obtain ⟨htext, htext', -⟩ := hl.input
  obtain ⟨R, stop, hover⟩ := hl.left.onto w hw
  obtain ⟨R', stop', hover'⟩ := hl.right.onto w' hw'
  have hpeeked := (Window.reads_peek w).onto hover
  have hpeeked' := (Window.reads_peek w').onto hover'
  unfold Lexer.aimIn Window.exhausted
  obtain ⟨hnone, hfailed⟩ | ⟨r, rest, hr, hr', hahead, hpeek⟩ := h.peek
  · simp only [hnone, Option.isNone_none, if_true, Window.failure?_of_ending hfailed]
    exact .unreadable _ _
  · simp only [hr, hr', Option.isNone_some, Bool.false_eq_true, if_false]
    have hlooks := Looks.refl.see hw (Window.reads_peek w)
    have hlooks' := Looks.refl.see hw' (Window.reads_peek w')
    have hseen : Alike (.truncated message name name') (lx.see w w.peek.2)
        (lx'.see w' w'.peek.2) := by
      refine hl.looks hlooks hlooks' ?_ ?_
      · rw [see_phase, see_phase, hl.phase]
      · rw [see_input, see_input]
        exact ⟨htext, htext', _, _, rfl, rfl, hpeek⟩
    have hrunes : (lx.see w w.peek.2).options.dfa = false := by rw [hlooks.kept.options, hdfa]
    have hrunes' : (lx'.see w' w'.peek.2).options.dfa = false := by rw [← hseen.options, hrunes]
    unfold Lexer.search
    rw [if_neg (by rw [hrunes]; decide), if_neg (by rw [hrunes']; decide), ← hseen.state]
    have hsearch := searched_searchRunes (see_window lx w w.peek.2) hpeeked
    have hsearch' := searched_searchRunes (see_window lx' w' w'.peek.2) hpeeked'
    obtain ⟨hreads, hlength⟩ := (lx.see w w.peek.2).runes.longest_window (lx.see w w.peek.2).rules
      (lx.see w w.peek.2).context.state hpeeked
    obtain hbroken | ⟨hhit, hsynced⟩ := hseen.searchRunes hpeek hpeeked hpeeked'
    · rw [show ((lx.see w w.peek.2).searchRunes w.peek.2).1 = .ofHit _ from rfl,
        decideOn_unreadable _ _ (Window.failure?_of_ending hbroken)]
      exact .unreadable _ _
    · rw [← hhit]
      refine decideOn_synced ?_ hsynced hsearch.window hsearch'.window ?_ _ (fun r n hit => ?_) _
      · refine hseen.looks hsearch.looks hsearch'.looks ?_ ?_
        · rw [hsearch.phase, hsearch'.phase, hseen.phase]
        · refine ⟨?_, ?_, _, _, hsearch.window, hsearch'.window, hsynced⟩
          · exact (searchRunes_text _ _).trans ((congrArg Prod.snd (see_input _ _ _)).trans htext)
          · exact (searchRunes_text _ _).trans ((congrArg Prod.snd (see_input _ _ _)).trans htext')
      · obtain ⟨more, hmore⟩ := hreads.ahead
        rw [hahead] at hmore
        intro hnil
        cases hmore.trans hnil
      · exact hlength r n hit

/-- **A lexer that looks for a match among runes** meets the read error, or comes to the same as one
with more input. -/
theorem aim_synced (hl : Alike (.truncated message name name') lx lx')
    (hp : lx.phase = .idle ∨ lx.phase = .matching) (hdfa : lx.options.dfa = false) :
    Forked (.truncated message name name') message lx.aim lx'.aim := by
  obtain ⟨-, -, w, w', hw, hw', h⟩ := hl.input
  rw [aim_attached hp hw, aim_attached (hl.phase ▸ hp) hw']
  exact (hl.setPhase .matching).aimIn_synced h hw hw' hdfa

end Alike

/-! ## Reading the whole input first -/

/-- The first search over bytes reads the input to its end. -/
theorem searchBytes_window (htext : lx.bytes.text = none) (w : Window) :
    (lx.searchBytes w).2.1 = w.drain := by
  rw [(searchBytes_setup lx w).1, byteSetup_window]
  unfold bufferBytes
  rw [htext]

/-- **A lexer that reads the whole input first** meets the read error before it dispatches
anything. -/
theorem aim_buffered (h : Window.Synced message w w') (hw : lx.window = some w) {R : List Rune}
    {stop : Stop} (ho : w.Over R stop) (htext : lx.bytes.text = none)
    (hp : lx.phase = .idle ∨ lx.phase = .matching) (hdfa : lx.options.dfa = true) :
    ∃ p lx₁, lx.aim = (.stop p, lx₁) ∧ (p = .broken ∨ ∃ e, p = .failed e) := by
  have hlooks : Looks lx (({ lx with phase := .matching } : Lexer α η).see w w.peek.2) :=
    (Looks.refl.phase .matching).see hw (Window.reads_peek w)
  generalize hseen : ({ lx with phase := .matching } : Lexer α η).see w w.peek.2 = seen at hlooks
  have htext' : seen.bytes.text = none := by
    rw [← hseen]
    exact (congrArg Prod.snd (see_input _ _ _)).trans htext
  rw [aim_attached hp hw]
  unfold Lexer.aimIn Window.exhausted
  simp only [hseen]
  obtain ⟨hnone, hfailed⟩ | ⟨r, rest, hr, -⟩ := h.peek
  · simp only [hnone, Option.isNone_none, if_true, Window.failure?_of_ending hfailed]
    exact ⟨_, _, rfl, .inr ⟨_, rfl⟩⟩
  · simp only [hr, Option.isNone_some, Bool.false_eq_true, if_false]
    -- the whole input was read, and behind its last rune the read error
    have hdrained : w.peek.2.drain.ending = some (.failed message) := by
      obtain rfl : stop = .broken message := ho.reason.symm.trans h.reason
      have hpeeked := (Window.reads_peek w).onto ho
      exact ((Window.reads_drain _).onto hpeeked).ending_broken hpeeked.drain_ended
    have hwindow := seen.searchBytes_window htext' w.peek.2
    unfold Lexer.search
    rw [hlooks.kept.options, if_pos hdfa, hwindow]
    have hf := Window.failure?_of_ending hdrained
    cases (seen.searchBytes w.peek.2).1 with
    | failed e => exact ⟨_, _, rfl, .inr ⟨e, rfl⟩⟩
    | broken => exact ⟨_, _, rfl, .inl rfl⟩
    | found r n => exact ⟨_, _, decideOn_unreadable _ (some (r, n)) hf, .inr ⟨_, rfl⟩⟩
    | nothing => exact ⟨_, _, decideOn_unreadable _ none hf, .inr ⟨_, rfl⟩⟩

end Lexer

end Munch
