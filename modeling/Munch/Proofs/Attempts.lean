import Munch.Proofs.ByteSearch

/-!
# One attempt to match bytes after the other

A lexer that matches bytes makes its attempts on one source in different states, at one position
after the other, and keeps a lot from each of them: the text with its position, compiled rules,
scanners and their trails. None of it shows in what the next attempt comes to.

A trail has room for a pattern in hand: the best one so far, if it was not made a match. An attempt
that began with one would count it as a match of no bytes. But no attempt leaves one, so that none
begins with one.

* `Lexer.Attempts lx lx'`: attempts lead from `lx` to `lx'`, with steps of any length forward
  between them, other states, and rules that are registered.
* `Lexer.EmptyHanded lx`: no trail that `lx` keeps has a pattern in hand.

Results:
* `Lexer.Fresh.attempts`: attempts leave a lexer fresh.
* `resume_eq`: what an attempt comes to, with its trail, if there is no pattern in hand.
* `Lexer.EmptyHanded.looks`: looking for a match leaves no pattern in hand.
* `emptyHanded_of_run`: no lexer that calls can lead to has a pattern in hand.
* **`byte_match_ignores_attempts`**: after any attempts the next one comes to what it would come to
  as the first.
-/

namespace Munch

open Lexer

variable {α η υ : Type}

namespace Lexer

/-- Attempts lead from one lexer to another: at any positions further on in the source, in any
states, with calls that register something between them. -/
inductive Attempts (lx₀ : Lexer α η) : Lexer α η → Prop
  | refl : Attempts lx₀ lx₀
  | search {lx : Lexer α η} {w : Window} (h : Attempts lx₀ lx) (hw : lx.window = some w) :
      Attempts lx₀ (lx.searchBytes w).2.2
  | read {lx : Lexer α η} {w w' : Window} (h : Attempts lx₀ lx) (hw : lx.window = some w)
      (hr : Window.Reads w w') : Attempts lx₀ { lx with window := some w' }
  | consume {lx : Lexer α η} {w : Window} {n : Nat} (h : Attempts lx₀ lx) (hw : lx.window = some w)
      (hn : n ≤ w.ahead.length) : Attempts lx₀ { lx with window := some (w.consume n).2 }
  | switch {lx : Lexer α η} (h : Attempts lx₀ lx) (state : Text) :
      Attempts lx₀ { lx with context := { lx.context with state := state } }
  | register {lx : Lexer α η} (h : Attempts lx₀ lx) (s : Setting α η) : Attempts lx₀ (s.apply lx)

/-- One attempt, after which the cursor is moved on by `n` runes, and the state may be another
one. -/
def onward (lx : Lexer α η) (w : Window) (n : Nat) (state : Text) : Window × Lexer α η :=
  let (_, after, lx) := lx.searchBytes w
  let w := (after.consume n).2
  (w, { lx with window := some w, context := { lx.context with state := state } })

theorem Attempts.onward {lx₀ lx : Lexer α η} (h : lx₀.Attempts lx) {w : Window}
    (hw : lx.window = some w) {n : Nat} (hn : n ≤ (lx.searchBytes w).2.1.ahead.length)
    (state : Text) :
    lx₀.Attempts (lx.onward w n state).2 ∧
      (lx.onward w n state).2.window = some (lx.onward w n state).1 :=
  ⟨((h.search hw).consume (searched_searchBytes hw).window hn).switch state, rfl⟩

/-- Attempts leave a lexer fresh. -/
theorem Fresh.attempts {es : List (Event α υ)} {lx lx' : Lexer α η} (h : lx.Fresh es)
    (ha : lx.Attempts lx') : lx'.Fresh es := by
  induction ha with
  | refl => exact h
  | search _ hw ih => exact ih.looks (searched_searchBytes hw).looks
  | read _ hw hr ih => exact ih.looks (Looks.refl.read hw hr)
  | consume _ hw hn ih => exact (ih.consumed hw (Window.keeps_iff.mpr hn)).congr rfl rfl rfl rfl rfl
  | switch _ _ ih => exact ih.congr rfl rfl rfl rfl rfl
  | register _ s ih => exact ih.registered (Setting.registered _ s)

/-- A lexer stays fresh if it forgets all that it keeps for matching bytes. -/
theorem Fresh.forget {es : List (Event α υ)} {lx : Lexer α η} (h : lx.Fresh es) :
    Fresh es { lx with bytes := {} } where
  window := h.window
  runes := h.runes
  compiled := by rintro state c ⟨⟩
  text := by rintro text ⟨⟩
  scanners := by rintro state scanner ⟨⟩

/-! ## Patterns in hand -/

/-- **Without a pattern in hand** an attempt makes a match of what it finds, and leaves none in
hand. -/
theorem resume_eq (s : Bytes.ByteScanner) {t : Bytes.Trail} (ht : t.winner = none) (pos : Nat) :
    s.resume t pos =
      if t.failed && pos == s.text.size then (none, t)
      else
        match s.longest pos with
        | some hit => (some hit, { t with mark := some (pos + hit.length) })
        | none =>
          if s.text.size ≤ pos then (none, { t with mark := t.markAt pos })
          else (none, { t with mark := some ((t.markAt pos).getD 0), failed := true }) := by
  unfold Bytes.ByteScanner.resume
  rw [ht, Option.map_none, ← Bytes.ByteScanner.longest]
  cases hlongest : s.longest pos with
  | none => rfl
  | some hit => simp only [if_neg (Nat.ne_of_gt (byteScanner_longest_pos hlongest)), ← ht]

theorem winner_resume (s : Bytes.ByteScanner) {t : Bytes.Trail} (ht : t.winner = none) (pos : Nat) :
    (s.resume t pos).2.winner = none := by
  rw [resume_eq s ht]
  split
  · exact ht
  · split
    · exact ht
    · split <;> exact ht

/-- No trail has a pattern in hand. -/
def EmptyHanded (lx : Lexer α η) : Prop :=
  ∀ state t, lx.bytes.trails.lookup state = some t → t.winner = none

theorem EmptyHanded.congr {lx lx' : Lexer α η} (h : lx.EmptyHanded)
    (htrails : lx'.bytes.trails = lx.bytes.trails) : lx'.EmptyHanded := by
  unfold EmptyHanded
  rw [htrails]
  exact h

/-- A trail without a pattern in hand takes the place of another. -/
theorem EmptyHanded.update {lx lx' : Lexer α η} (h : lx.EmptyHanded) {state : Text}
    {t : Bytes.Trail} (ht : t.winner = none)
    (htrails : lx'.bytes.trails = RuleTable.update state t lx.bytes.trails) :
    lx'.EmptyHanded := by
  intro k trail hk
  rw [htrails, RuleTable.lookup_update] at hk
  split at hk
  · cases hk
    exact ht
  · exact h k trail hk

theorem EmptyHanded.attempt {lx : Lexer α η} (h : lx.EmptyHanded) (u : ByteSetup α) :
    (lx.attempt u).2.EmptyHanded := by
  have ht : ((lx.bytes.trails.lookup lx.context.state).getD {}).winner = none := by
    cases htrail : lx.bytes.trails.lookup lx.context.state with
    | none => rfl
    | some t => exact h _ t htrail
  exact h.update (winner_resume u.scanner ht u.text.bytePos) rfl

/-- **Looking for a match leaves no pattern in hand.** -/
theorem EmptyHanded.looks {lx lx' : Lexer α η} (h : lx.EmptyHanded) (hl : lx.Looks lx') :
    lx'.EmptyHanded := by
  induction hl with
  | refl => exact h
  | note _ _ _ ih | phase _ _ ih | read _ _ _ ih | runes _ _ _ ih | buffer _ _ ih | reuse _ _ _ ih
  | compile _ _ ih | move _ _ _ ih => exact ih
  | scan _ _ _ ih => exact ih.update rfl rfl
  | attempt _ u ih => exact ih.attempt u

/-- Attempts leave no pattern in hand. -/
theorem EmptyHanded.attempts {lx lx' : Lexer α η} (h : lx.EmptyHanded) (ha : lx.Attempts lx') :
    lx'.EmptyHanded := by
  induction ha with
  | refl => exact h
  | search _ hw ih => exact ih.looks (searched_searchBytes hw).looks
  | read _ _ _ ih | consume _ _ _ ih | switch _ _ ih => exact ih
  | register _ s ih => exact ih.congr (congrArg ByteMatcher.trails (Setting.registered _ s).bytes)

/-- Calls and parts of a step leave no pattern in hand. -/
theorem invariant_emptyHanded :
    Invariant fun (es : List (Event α υ)) (lx : Lexer α η) => lx.Fresh es ∧ lx.EmptyHanded where
  register h s :=
    ⟨invariant_fresh.register h.1 s,
      h.2.congr (congrArg ByteMatcher.trails (Setting.registered _ s).bytes)⟩
  begin := by
    intro es lx lx' h state hbegin
    refine ⟨invariant_fresh.begin h.1 state hbegin, ?_⟩
    unfold Lexer.begin at hbegin
    split at hbegin
    · cases hbegin
    · split at hbegin <;> cases hbegin <;> exact h.2
  attach h s :=
    ⟨invariant_fresh.attach h.1 s, h.2.congr (by rw [(attached_attachSource _ s).bytes])⟩
  fail h e := ⟨invariant_fresh.fail h.1 e, h.2⟩
  note h level n := ⟨invariant_fresh.note h.1 level n, h.2⟩
  stop h haim := ⟨invariant_fresh.stop h.1 haim, h.2.looks (looks_of_aim h.1.onto haim)⟩
  broken h haim :=
    ⟨invariant_fresh.broken h.1 haim, (h.2.looks (looks_of_aim h.1.onto haim)).congr rfl⟩
  dispatched h haim hkeeps :=
    ⟨invariant_fresh.dispatched h.1 haim hkeeps, (h.2.looks (looks_of_aim h.1.onto haim)).congr rfl⟩
  delivered h t := ⟨invariant_fresh.delivered h.1 t, h.2⟩
  returned h := ⟨invariant_fresh.returned h.1, h.2⟩
  resumed h hphase := ⟨invariant_fresh.resumed h.1 hphase, h.2⟩

end Lexer

/-- **No lexer that calls can lead to has a pattern in hand.** -/
theorem emptyHanded_of_run {es : List (Event α υ)} {lx : Lexer α η} (run : Run {} es lx) :
    lx.EmptyHanded :=
  (invariant_emptyHanded.of_run run ⟨fresh_new, by rintro state t ⟨⟩⟩).2

/-- **A match over bytes does not depend on earlier attempts.** Whatever was done with a lexer, and
whatever attempts were made since then on its source (matches or none, with the cursor moved on in
between, in one state or another and back again), the next attempt comes to what it would come to
with nothing kept: the rule and the length, no match, an error, or a breakdown. -/
theorem byte_match_ignores_attempts {es : List (Event α υ)} {lx lx' : Lexer α η}
    (run : Run {} es lx) (attempts : lx.Attempts lx') {w : Window} (hw : lx'.window = some w) :
    (lx'.searchBytes w).1 = (({ lx' with bytes := {} } : Lexer α η).searchBytes w).1 := by
  have hf := (fresh_of_run run).attempts attempts
  obtain ⟨s, hs, -⟩ := hf.window w hw
  have hnew : Fresh es ({ lx' with bytes := {} } : Lexer α η) := hf.forget
  rw [hf.searchBytes hs hw, hnew.searchBytes hs hw]
  have hrules : lx'.rules = ({ lx' with bytes := {} } : Lexer α η).rules := rfl
  rw [compileRules_congr hrules]

/-- The number of runes of a match. -/
def Search.length? : Search α → Option Nat
  | .found _ n => some n
  | _ => none

theorem Search.length?_eq_some {s : Search α} {n : Nat} :
    s.length? = some n ↔ ∃ r, s = .found r n := by
  cases s <;> simp [Search.length?]

/-- A lexer for bytes before a text, at whose first rune nothing matches. -/
def beforeText : Lexer Nat Unit :=
  (Lexer.configured [.option "dfa" true, .rule "ab" (some 1), .declare "A" .exclusive,
    .rule "<A>b" (some 2)]).attachSource (.ofText "xabb")

/-- The lexer after an attempt on the whole text, behind the first rune and in the state `A`. -/
def inOtherState : Window × Lexer Nat Unit := beforeText.onward (.ofSource (.ofText "xabb")) 1 "A"

/-- The lexer after another attempt there, which finds nothing in that state either, and back in the
first state. -/
def switchedBack : Window × Lexer Nat Unit := inOtherState.2.onward inOtherState.1 0 States.initial

set_option maxRecDepth 10000 in
theorem byte_match_ignores_attempts_switched :
    switchedBack.2.bytes.trails = [(States.initial, { mark := some 0, failed := true }),
        ("A", { mark := some 0, failed := true })] ∧
      (switchedBack.2.searchBytes switchedBack.1).1 =
        (({ switchedBack.2 with bytes := {} } : Lexer Nat Unit).searchBytes switchedBack.1).1 ∧
      ∃ r, (switchedBack.2.searchBytes switchedBack.1).1 = .found r 2 := by
  have run : Run (υ := Unit) {} [.attached (.ofText "xabb")] beforeText :=
    ((Run.nil {}).settings _).attach (.ofText "xabb")
  have hbefore : beforeText.window = some (.ofSource (.ofText "xabb")) := rfl
  have hone : 1 ≤ (beforeText.searchBytes (.ofSource (.ofText "xabb"))).2.1.ahead.length := by
    decide +kernel
  obtain ⟨hother, hother'⟩ : beforeText.Attempts inOtherState.2 ∧
      inOtherState.2.window = some inOtherState.1 := by
    unfold inOtherState
    exact Attempts.refl.onward hbefore hone "A"
  obtain ⟨hback, hback'⟩ : beforeText.Attempts switchedBack.2 ∧
      switchedBack.2.window = some switchedBack.1 := by
    unfold switchedBack
    exact hother.onward hother' (Nat.zero_le _) States.initial
  have hsame := byte_match_ignores_attempts run hback hback'
  exact ⟨by decide +kernel, hsame, Search.length?_eq_some.mp (by decide +kernel)⟩

end Munch
