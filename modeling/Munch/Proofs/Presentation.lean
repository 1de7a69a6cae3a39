import Munch.Proofs.Contest

/-!
# Input presented in several ways

A source may say that it has ended or let its end be found, and may read ahead of what it delivers.
A window shows no difference: what counts are the runes delivered, and whether a read error follows
them.

* `Window.ReadAlike V`: windows related by `V` show the same, and stay related when both are read
  further.
* `Window.Presented w w'`: both windows have the same runes kept and unread, and end for the same
  reason.

Results:
* `Window.ReadAlike.peek`, `fill`, `lookahead` and `drain`: reading shows the same in related
  windows.
* `Machine.run_alike`: a contest goes the same way in related windows.
* `Window.readAlike_presented`: two ways to present an input read alike.
-/

namespace Munch

variable {α : Type}

namespace Window

/-- Windows related by `V` keep the same runes and have met the same end, and stay related when both
are read further or are moved alike. -/
structure ReadAlike (V : Window → Window → Prop) : Prop where
  refl : ∀ w, V w w
  ahead : ∀ {w w'}, V w w' → w.ahead = w'.ahead
  offset : ∀ {w w'}, V w w' → w.offset = w'.offset
  prev : ∀ {w w'}, V w w' → w.prev = w'.prev
  total : ∀ {w w'}, V w w' → w.total = w'.total
  ending : ∀ {w w'}, V w w' → w.ending.map Ending.reason = w'.ending.map Ending.reason
  pull : ∀ {w w'}, V w w' → V w.pull w'.pull
  keep : ∀ {w w'}, V w w' → ∀ rs, V { w with ahead := rs } { w' with ahead := rs }
  consume : ∀ {w w'}, V w w' → ∀ n, V (w.consume n).2 (w'.consume n).2

theorem readAlike_eq : ReadAlike Eq where
  refl _ := rfl
  ahead := congrArg _
  offset := congrArg _
  prev := congrArg _
  total := congrArg _
  ending := congrArg fun w : Window => w.ending.map Ending.reason
  pull := congrArg _
  keep := by
    rintro w _ rfl rs
    rfl
  consume := by
    rintro w _ rfl n
    rfl

/-- The read error is the one in the reason for the end. -/
theorem failure?_eq_bind (w : Window) :
    w.failure? = (w.ending.map Ending.reason).bind fun
      | .ended => none
      | .broken message => some message := by
  unfold failure?
  obtain _ | e := w.ending
  · rfl
  · cases e <;> rfl

namespace ReadAlike

variable {V : Window → Window → Prop} {w w' : Window}

theorem ended (hV : ReadAlike V) (h : V w w') : w.ending.isSome = w'.ending.isSome := by
  have hsome := congrArg Option.isSome (hV.ending h)
  rwa [Option.isSome_map, Option.isSome_map] at hsome

theorem failure? (hV : ReadAlike V) (h : V w w') : w.failure? = w'.failure? := by
  rw [failure?_eq_bind, failure?_eq_bind, hV.ending h]

theorem keeps (hV : ReadAlike V) (h : V w w') (n : Nat) : w.keeps n = w'.keeps n := by
  rw [Window.keeps, Window.keeps, hV.ahead h]

/-- The rune at the cursor is the same. -/
theorem peek (hV : ReadAlike V) (h : V w w') : w.peek.1 = w'.peek.1 ∧ V w.peek.2 w'.peek.2 := by
  unfold Window.peek
  rw [← hV.ahead h]
  cases w.ahead with
  | cons rune rest => exact ⟨rfl, h⟩
  | nil => exact ⟨congrArg List.head? (hV.ahead (hV.pull h)), hV.pull h⟩

theorem pullMany (hV : ReadAlike V) (n : Nat) (h : V w w') :
    V (pullMany n w) (Window.pullMany n w') := by
  induction n generalizing w w' with
  | zero => exact h
  | succ n ih =>
    rw [Window.pullMany, Window.pullMany, ← hV.ended h]
    split
    · exact h
    · exact ih (hV.pull h)

theorem fill (hV : ReadAlike V) (h : V w w') (n : Nat) : V (w.fill n) (w'.fill n) := by
  unfold Window.fill
  rw [← hV.ahead h]
  exact hV.pullMany _ h

/-- So are the runes behind it. -/
theorem lookahead (hV : ReadAlike V) (h : V w w') (n : Nat) :
    (w.lookahead n).1 = (w'.lookahead n).1 ∧ V (w.lookahead n).2 (w'.lookahead n).2 :=
  ⟨congrArg (List.take n) (hV.ahead (hV.fill h n)), hV.fill h n⟩

theorem drainFrom (hV : ReadAlike V) (fuel : Nat) (kept : List Rune) (h : V w w') :
    V (drainFrom fuel kept w) (Window.drainFrom fuel kept w') := by
  induction fuel generalizing kept w w' with
  | zero =>
    rw [Window.drainFrom, Window.drainFrom, ← hV.ahead h]
    exact hV.keep h _
  | succ fuel ih =>
    have hpull := hV.pull h
    rw [Window.drainFrom, Window.drainFrom, ← hV.ahead h]
    cases w.ahead with
    | cons rune rest => exact ih _ (hV.keep h rest)
    | nil =>
      simp only [← hV.ahead hpull]
      cases w.pull.ahead with
      | nil => exact hV.keep hpull _
      | cons rune rest => exact ih _ (hV.keep hpull rest)

/-- Reading to the end leaves the same runes. -/
theorem drain (hV : ReadAlike V) (h : V w w') : V w.drain w'.drain := by
  unfold Window.drain
  rw [← hV.total h]
  exact hV.drainFrom _ _ h

theorem advance (hV : ReadAlike V) (h : V w w') : V w.advance w'.advance := by
  unfold Window.advance
  rw [← hV.ahead h]
  exact hV.keep h _

theorem rewind (hV : ReadAlike V) (h : V w w') (passed : List Rune) :
    V (w.rewind passed) (w'.rewind passed) := by
  unfold Window.rewind
  rw [← hV.ahead h]
  exact hV.keep h _

end ReadAlike

end Window

/-! ## Contests -/

namespace Machine

variable {V : Window → Window → Prop} {w w' : Window}

theorem race_alike (hV : Window.ReadAlike V) (fuel length : Nat) (best : Option Hit)
    (tracks : List (Track α)) (rune : Rune) (passed : List Rune) (h : V w w') :
    (race fuel length best tracks rune passed w).1 =
      (race fuel length best tracks rune passed w').1 ∧
      V (race fuel length best tracks rune passed w).2.1
        (race fuel length best tracks rune passed w').2.1 := by
  induction fuel generalizing length best tracks rune passed w w' with
  | zero => exact ⟨rfl, hV.rewind h passed⟩
  | succ fuel ih =>
    obtain ⟨hrune, hpeek⟩ := hV.peek (hV.advance h)
    rw [race, race]
    split
    · simp only [← hrune]
      exact ih _ _ _ _ _ hpeek
    · exact ⟨rfl, hV.rewind h passed⟩

/-- **A contest goes the same way** in windows that read alike. -/
theorem run_alike (hV : Window.ReadAlike V) (m : Machine α) (h : V w w') :
    (m.run w).1 = (m.run w').1 ∧ V (m.run w).2.1 (m.run w').2.1 := by
  obtain ⟨hrune, hpeek⟩ := hV.peek h
  unfold run
  simp only [← hrune, ← hV.prev h, ← hV.total hpeek]
  exact race_alike hV _ _ _ _ _ _ hpeek

end Machine

/-! ## Presentations -/

namespace Window

/-- Both windows have the same runes kept and the same runes unread, and end for the same reason. -/
structure Presented (w w' : Window) : Prop where
  ahead : w.ahead = w'.ahead
  unread : w.unread = w'.unread
  offset : w.offset = w'.offset
  prev : w.prev = w'.prev
  total : w.total = w'.total
  reason : w.source.reason = w'.source.reason
  ending : w.ending.map Ending.reason = w'.ending.map Ending.reason

/-- Sources that deliver the same runes and stop for the same reason present the same input. -/
theorem presented_ofSource {s s' : Source} (hpending : s.pending = s'.pending)
    (hreason : s.reason = s'.reason) : (ofSource s).Presented (ofSource s') :=
  ⟨rfl, hpending, rfl, rfl, congrArg List.length hpending, hreason, rfl⟩

/-- What one more rune, or none, makes of a window that has not met its end. -/
theorem pull_cases {w : Window} (hend : w.ending = none) :
    (w.unread = [] ∧ w.pull.ahead = w.ahead ∧
        w.pull.ending.map Ending.reason = some w.source.reason) ∨
      ∃ r rest, w.unread = r :: rest ∧ w.pull.ahead = w.ahead ++ [r] ∧ w.pull.ending = none := by
  have hunread : w.unread = w.source.pending := by
    rw [Window.unread, hend]
    rfl
  rw [hunread]
  cases hp : w.source.pending with
  | nil =>
    obtain ⟨hstopped, hahead⟩ := pull_nil hp
    obtain ⟨e, he⟩ := Option.isSome_iff_exists.mp hstopped
    obtain hsame | hfound := (pull_reason w).2 e he
    · rw [hend] at hsame
      cases hsame
    · refine .inl ⟨rfl, hahead, ?_⟩
      rw [he, Option.map_some, hfound]
  | cons r rest =>
    obtain ⟨hahead, hnone, -⟩ := pull_cons hend hp
    exact .inr ⟨r, rest, rfl, hahead, hnone⟩

/-- **One more rune is the same one**, or the same end is met. -/
theorem Presented.pull {w w' : Window} (h : w.Presented w') : w.pull.Presented w'.pull := by
  have hended : w.ending.isSome = w'.ending.isSome := by
    have hsome := congrArg Option.isSome h.ending
    rwa [Option.isSome_map, Option.isSome_map] at hsome
  cases hend : w.ending with
  | some e =>
    have hstopped : w.ending.isSome := by rw [hend]; rfl
    rwa [pull_of_ended hstopped, pull_of_ended (hended ▸ hstopped)]
  | none =>
    have hend' : w'.ending = none := by
      rw [← Option.not_isSome_iff_eq_none, ← hended, hend]
      simp
    obtain ⟨hoffset, hprev, htotal⟩ := pull_fixed w
    obtain ⟨hoffset', hprev', htotal'⟩ := pull_fixed w'
    have hread : w.pull.ahead = w'.pull.ahead ∧
        w.pull.ending.map Ending.reason = w'.pull.ending.map Ending.reason := by
      obtain ⟨hnil, hahead, hreason⟩ | ⟨r, rest, hcons, hahead, hnone⟩ := pull_cases hend <;>
        obtain ⟨hnil', hahead', hreason'⟩ | ⟨r', rest', hcons', hahead', hnone'⟩ := pull_cases hend'
      · rw [hahead, hahead', hreason, hreason', h.ahead, h.reason]
        exact ⟨rfl, rfl⟩
      · rw [← h.unread, hnil] at hcons'
        cases hcons'
      · rw [← h.unread, hcons] at hnil'
        cases hnil'
      · rw [← h.unread, hcons] at hcons'
        cases hcons'
        rw [hahead, hahead', hnone, hnone', h.ahead]
        exact ⟨rfl, rfl⟩
    have hrest := pull_rest w
    rw [h.ahead, h.unread, ← pull_rest w', hread.1] at hrest
    exact
      { ahead := hread.1
        unread := List.append_cancel_left hrest
        offset := by rw [hoffset, hoffset', h.offset]
        prev := by rw [hprev, hprev', h.prev]
        total := by rw [htotal, htotal', h.total]
        reason := by rw [(pull_reason w).1, (pull_reason w').1, h.reason]
        ending := hread.2 }

/-- **Two ways to present an input read alike.** -/
theorem readAlike_presented : ReadAlike Presented where
  refl _ := ⟨rfl, rfl, rfl, rfl, rfl, rfl, rfl⟩
  ahead h := h.ahead
  offset h := h.offset
  prev h := h.prev
  total h := h.total
  ending h := h.ending
  pull h := h.pull
  keep h rs := ⟨rfl, h.unread, h.offset, h.prev, h.total, h.reason, h.ending⟩
  consume h n :=
    { ahead := by rw [Window.consume, Window.consume, h.ahead]
      unread := h.unread
      offset := by rw [Window.consume, Window.consume, h.offset]
      prev := by rw [Window.consume, Window.consume, h.ahead, h.prev]
      total := h.total
      reason := h.reason
      ending := h.ending }

end Window

end Munch
