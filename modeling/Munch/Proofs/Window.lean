import Munch.Window

/-!
# A window shows the input from its cursor on

A source delivers its pending runes and then stops for a reason. `Window.Over w R stop` says that
`w` is a window onto an input of the runes `R` that stops for the reason `stop`: the runes kept and
those still to be read are `R` from the offset on, and the rune before the cursor is the one before
the offset.

Results:
* `Source.next_ok` / `Source.next_error` / `Source.atEnd_true`: what a source answers, in terms of
  the runes it has still to deliver.
* `Window.Over.pull`, `Window.Over.consume`: reading keeps a window over its input where it is, and
  consuming kept runes moves it over them.
* `Window.Over.peek` and `Window.Over.exhausted`: the rune at the cursor is the one of the input.
* `Window.Over.failure?`: a read error is seen only if the input stops with it.
* `Window.Over.drain` and `Window.Over.lookahead`: what reading further ahead gets to see.
-/

namespace Munch

/-! ## Sources -/

namespace Source

/-- Why the source stops behind its runes. -/
def reason : Source → Stop
  | .buffered b _ => b.stop.getD b.reader.stop
  | .direct r _ _ => r.stop

theorem atEnd_pending (s : Source) : s.atEnd.2.pending = s.pending := by
  cases s with
  | direct r precise path => rfl
  | buffered b path =>
    obtain ⟨⟨rest, stop⟩, slot, stopped⟩ := b
    cases slot <;> cases stopped <;> cases rest <;> rfl

theorem atEnd_reason (s : Source) : s.atEnd.2.reason = s.reason := by
  cases s with
  | direct r precise path => rfl
  | buffered b path =>
    obtain ⟨⟨rest, stop⟩, slot, stopped⟩ := b
    cases slot <;> cases stopped <;> cases rest <;> rfl

/-- A source that says it has ended has delivered everything, and stops without an error. -/
theorem atEnd_true {s : Source} (h : s.atEnd.1 = true) : s.pending = [] ∧ s.reason = .ended := by
  cases s with
  | direct r precise path =>
    simp only [atEnd, Bool.and_eq_true, List.isEmpty_iff, beq_iff_eq] at h
    exact ⟨h.1.2, h.2⟩
  | buffered b path =>
    obtain ⟨⟨rest, stop⟩, slot, stopped⟩ := b
    cases slot <;> cases stopped <;> cases rest <;>
      simp_all [atEnd, Buffered.atEnd, Buffered.peek, Reader.read, pending, reason]

/-- A rune that a source delivers is the first of those pending. -/
theorem next_ok {s s' : Source} {r : Rune} (h : s.next = (.ok r, s')) :
    s.pending = r :: s'.pending ∧ s'.reason = s.reason := by
  cases s with
  | direct reader precise path =>
    obtain ⟨rest, stop⟩ := reader
    cases rest with
    | nil => cases h
    | cons x xs => cases h; exact ⟨rfl, rfl⟩
  | buffered b path =>
    obtain ⟨⟨rest, stop⟩, slot, stopped⟩ := b
    cases slot <;> cases stopped <;> cases rest <;> cases h <;> exact ⟨rfl, rfl⟩

/-- A source that delivers no rune has none pending, and says why it stops. -/
theorem next_error {s s' : Source} {stop : Stop} (h : s.next = (.error stop, s')) :
    s.pending = [] ∧ stop = s.reason ∧ s'.reason = s.reason := by
  cases s with
  | direct reader precise path =>
    obtain ⟨rest, stop⟩ := reader
    cases rest with
    | nil => cases h; exact ⟨rfl, rfl, rfl⟩
    | cons x xs => cases h
  | buffered b path =>
    obtain ⟨⟨rest, stop⟩, slot, stopped⟩ := b
    cases slot <;> cases stopped <;> cases rest <;> cases h <;> exact ⟨rfl, rfl, rfl⟩

end Source

/-! ## Windows -/

/-- The reason to stop that an ending shows. -/
def Ending.reason : Ending → Stop
  | .announced => .ended
  | .found => .ended
  | .failed message => .broken message

theorem Ending.eq_failed {e : Ending} {message : Text} (h : e.reason = .broken message) :
    e = .failed message := by
  cases e with
  | announced => cases h
  | found => cases h
  | failed m =>
    cases h
    rfl

namespace Window

/-- The runes that have not been read yet. -/
def unread (w : Window) : List Rune := if w.ending.isSome then [] else w.source.pending

/-- The window is one onto an input of the runes `R` that stops for the reason `stop`. -/
structure Over (w : Window) (R : List Rune) (stop : Stop) : Prop where
  rest : w.ahead ++ w.unread = R.drop w.offset
  offset_le : w.offset ≤ R.length
  prev : w.prev = (R.take w.offset).getLastD Rune.absent
  reason : w.source.reason = stop
  ending : ∀ e, w.ending = some e → e.reason = stop
  total : w.total = R.length

variable {w : Window} {R : List Rune} {stop : Stop}

theorem over_ofSource (s : Source) : (ofSource s).Over s.pending s.reason where
  rest := rfl
  offset_le := Nat.zero_le _
  prev := rfl
  reason := rfl
  ending := by rintro e ⟨⟩
  total := rfl

/-- The runes of the input from the cursor on do not end before those that are kept. -/
theorem Over.ahead_take (h : w.Over R stop) {n : Nat} (hn : n ≤ w.ahead.length) :
    w.ahead.take n = (R.drop w.offset).take n := by
  rw [← h.rest, List.take_append_of_le_length hn]

/-- Reading changes only what is read ahead. -/
theorem pull_fixed (w : Window) :
    w.pull.offset = w.offset ∧ w.pull.prev = w.prev ∧ w.pull.total = w.total := by
  unfold pull
  split
  · exact ⟨rfl, rfl, rfl⟩
  · split
    · exact ⟨rfl, rfl, rfl⟩
    · split <;> exact ⟨rfl, rfl, rfl⟩

/-- Reading moves a rune from those unread to those kept. -/
theorem pull_rest (w : Window) : w.pull.ahead ++ w.pull.unread = w.ahead ++ w.unread := by
  unfold pull
  split
  · rfl
  next hend =>
    have hp := Source.atEnd_pending w.source
    split
    next s hs =>
      obtain ⟨hnone, -⟩ := Source.atEnd_true (s := w.source) (by rw [hs])
      simp [unread, hend, hnone]
    next s hs =>
      rw [hs] at hp
      split
      next r s' hnext =>
        obtain ⟨hpend, -⟩ := Source.next_ok hnext
        simp [unread, hend, ← hp, hpend]
      next s' hnext =>
        obtain ⟨hpend, -⟩ := Source.next_error hnext
        simp [unread, hend, ← hp, hpend]
      next message s' hnext =>
        obtain ⟨hpend, -⟩ := Source.next_error hnext
        simp [unread, hend, ← hp, hpend]

/-- Reading does not change why the source stops, and an ending that is found is of that kind. -/
theorem pull_reason (w : Window) : w.pull.source.reason = w.source.reason ∧
    ∀ e, w.pull.ending = some e → w.ending = some e ∨ e.reason = w.source.reason := by
  unfold pull
  split
  · exact ⟨rfl, fun e he => .inl he⟩
  next hend =>
    have hr := Source.atEnd_reason w.source
    split
    next s hs =>
      obtain ⟨-, hended⟩ := Source.atEnd_true (s := w.source) (by rw [hs])
      rw [hs] at hr
      refine ⟨hr, ?_⟩
      rintro e ⟨⟩
      exact .inr hended.symm
    next s hs =>
      rw [hs] at hr
      split
      next r s' hnext => exact ⟨(Source.next_ok hnext).2.trans hr, fun e he => .inl he⟩
      next s' hnext =>
        obtain ⟨-, hstop, hreason⟩ := Source.next_error hnext
        refine ⟨hreason.trans hr, ?_⟩
        rintro e ⟨⟩
        exact .inr (hstop.trans hr)
      next message s' hnext =>
        obtain ⟨-, hstop, hreason⟩ := Source.next_error hnext
        refine ⟨hreason.trans hr, ?_⟩
        rintro e ⟨⟩
        exact .inr (hstop.trans hr)

/-- **Reading keeps a window over its input.** -/
theorem Over.pull (h : w.Over R stop) : w.pull.Over R stop := by
  obtain ⟨hoffset, hprev, htotal⟩ := pull_fixed w
  obtain ⟨hreason, hending⟩ := pull_reason w
  refine ⟨?_, ?_, ?_, hreason.trans h.reason, fun e he => ?_, htotal.trans h.total⟩
  · rw [pull_rest, hoffset, h.rest]
  · rw [hoffset]
    exact h.offset_le
  · rw [hprev, hoffset, h.prev]
  · obtain he | he := hending e he
    · exact h.ending e he
    · exact he.trans h.reason

/-- A source that is asked delivers a rune or has stopped. -/
theorem pull_ahead (w : Window) :
    (w.pull.ending.isSome ∧ w.pull.ahead = w.ahead) ∨ ∃ r, w.pull.ahead = w.ahead ++ [r] := by
  unfold Window.pull
  split
  next e hend => exact .inl ⟨by rw [hend]; rfl, rfl⟩
  · split
    · exact .inl ⟨rfl, rfl⟩
    · split
      next r s' hnext => exact .inr ⟨r, rfl⟩
      · exact .inl ⟨rfl, rfl⟩
      · exact .inl ⟨rfl, rfl⟩

/-- A source that has a rune pending delivers it. -/
theorem pull_cons {w : Window} {r : Rune} {rest : List Rune} (hend : w.ending = none)
    (hp : w.source.pending = r :: rest) :
    w.pull.ahead = w.ahead ++ [r] ∧ w.pull.ending = none ∧ w.pull.source.pending = rest := by
  have hpending := Source.atEnd_pending w.source
  unfold Window.pull
  rw [hend]
  simp only
  split
  next s hs =>
    obtain ⟨hnone, -⟩ := Source.atEnd_true (s := w.source) (by rw [hs])
    rw [hp] at hnone
    cases hnone
  next s hs =>
    rw [hs, hp] at hpending
    split
    next r' s' hnext =>
      obtain ⟨hcons, -⟩ := Source.next_ok hnext
      rw [hpending] at hcons
      cases hcons
      exact ⟨rfl, rfl, rfl⟩
    next s' hnext =>
      cases hpending.symm.trans (Source.next_error hnext).1
    next message s' hnext =>
      cases hpending.symm.trans (Source.next_error hnext).1

/-- A source that has no rune pending stops when it is asked. -/
theorem pull_nil {w : Window} (hp : w.source.pending = []) :
    w.pull.ending.isSome ∧ w.pull.ahead = w.ahead := by
  obtain hend | ⟨r, hr⟩ := pull_ahead w
  · exact hend
  · have hrest := pull_rest w
    have hunread : w.unread = [] := by
      unfold unread
      rw [hp, ite_self]
    rw [hr, hunread] at hrest
    simp at hrest

theorem pull_of_ended {w : Window} (h : w.ending.isSome) : w.pull = w := by
  unfold Window.pull
  obtain ⟨e, he⟩ := Option.isSome_iff_exists.mp h
  rw [he]

/-! ## Reading on -/

/-- The window `w'` is `w` read further. -/
inductive Reads : Window → Window → Prop
  | refl (w : Window) : Reads w w
  | pull {w w' : Window} (h : Reads w w') : Reads w w'.pull

namespace Reads

variable {w₁ w₂ w₃ : Window}

theorem trans (h₁ : Reads w₁ w₂) (h₂ : Reads w₂ w₃) : Reads w₁ w₃ := by
  induction h₂ with
  | refl => exact h₁
  | pull _ ih => exact ih.pull

theorem onto (h : Reads w₁ w₂) (ho : w₁.Over R stop) : w₂.Over R stop := by
  induction h with
  | refl => exact ho
  | pull _ ih => exact ih.pull

theorem rest (h : Reads w₁ w₂) : w₂.ahead ++ w₂.unread = w₁.ahead ++ w₁.unread := by
  induction h with
  | refl => rfl
  | @pull w' _ ih => rw [pull_rest, ih]

theorem fixed (h : Reads w₁ w₂) :
    w₂.offset = w₁.offset ∧ w₂.prev = w₁.prev ∧ w₂.total = w₁.total := by
  induction h with
  | refl => exact ⟨rfl, rfl, rfl⟩
  | @pull w' _ ih =>
    obtain ⟨ho, hp, ht⟩ := pull_fixed w'
    exact ⟨ho.trans ih.1, hp.trans ih.2.1, ht.trans ih.2.2⟩

/-- The runes kept stay, and more may follow them. -/
theorem ahead (h : Reads w₁ w₂) : w₁.ahead <+: w₂.ahead := by
  induction h with
  | refl => exact List.prefix_rfl
  | @pull w' _ ih =>
    obtain ⟨-, hsame⟩ | ⟨r, hmore⟩ := pull_ahead w'
    · rwa [hsame]
    · exact ih.trans ⟨[r], hmore.symm⟩

/-- An end that was found stays. -/
theorem ending (h : Reads w₁ w₂) {e : Ending} (he : w₁.ending = some e) : w₂.ending = some e := by
  induction h with
  | refl => exact he
  | pull _ ih =>
    rw [pull_of_ended (by rw [ih]; rfl)]
    exact ih

/-- Where everything is kept there is nothing to be read. -/
theorem ahead_eq (h : Reads w₁ w₂) (ho : w₁.Over R stop) (hall : w₁.ahead = R.drop w₁.offset) :
    w₂.ahead = R.drop w₂.offset := by
  have hrest := (h.onto ho).rest
  have hlonger := h.ahead
  rw [hall, ← h.fixed.1, ← hrest] at hlonger
  rw [← hrest]
  refine (hlonger.eq_of_length_le ?_).symm
  rw [List.length_append]
  exact Nat.le_add_right _ _

end Reads

theorem reads_peek (w : Window) : Reads w w.peek.2 := by
  unfold peek
  split
  · exact .refl w
  · exact (Reads.refl w).pull

theorem reads_pullMany (n : Nat) (w : Window) : Reads w (pullMany n w) := by
  induction n generalizing w with
  | zero => exact .refl w
  | succ n ih =>
    rw [pullMany]
    split
    · exact .refl w
    · exact (Reads.refl w).pull.trans (ih w.pull)

theorem reads_fill (w : Window) (n : Nat) : Reads w (w.fill n) := reads_pullMany _ w

theorem reads_lookahead (w : Window) (n : Nat) : Reads w (w.lookahead n).2 := reads_fill w n

/-- The rune at the cursor is the first one that is kept or unread. -/
theorem peek_eq (w : Window) : w.peek.1 = (w.ahead ++ w.unread).head? := by
  unfold Window.peek
  split
  next r rest hw => rw [hw]; rfl
  next hw =>
    rw [← pull_rest]
    obtain ⟨hend, -⟩ | ⟨r, hr⟩ := pull_ahead w
    · rw [unread, if_pos hend, List.append_nil]
    · simp only [hr, hw, List.nil_append, List.cons_append, List.head?_cons]

/-- The rune at the cursor is the one of the input. -/
theorem Over.peek (h : w.Over R stop) : w.peek.1 = (R.drop w.offset).head? := by
  rw [peek_eq, h.rest]

/-- The cursor is at the end of a window iff it is at the end of the input. -/
theorem Over.exhausted (h : w.Over R stop) : w.exhausted.1 = true ↔ R.length ≤ w.offset := by
  show w.peek.1.isNone = true ↔ _
  rw [h.peek, List.head?_drop, Option.isNone_iff_eq_none, List.getElem?_eq_none_iff]

theorem peek_fst (w : Window) : w.peek.1 = w.peek.2.ahead.head? := by
  unfold Window.peek
  split
  next r rest hw => rw [hw]; rfl
  · rfl

/-- A rune of the input at the cursor is kept once it was looked at. -/
theorem Over.peek_ahead (h : w.Over R stop) (hlt : w.offset < R.length) : w.peek.2.ahead ≠ [] := by
  have hp := h.peek
  rw [peek_fst, List.head?_drop, List.getElem?_eq_getElem hlt] at hp
  intro hnil
  rw [hnil] at hp
  cases hp

/-- A read error is seen only on an input that stops with it. -/
theorem Over.failure? (h : w.Over R stop) {message : Text} (hm : w.failure? = some message) :
    stop = .broken message := by
  unfold Window.failure? at hm
  split at hm
  next m he =>
    cases hm
    exact (h.ending _ he).symm
  · cases hm

theorem Over.failure?_eq_none (h : w.Over R .ended) : w.failure? = none := by
  cases hf : w.failure? with
  | none => rfl
  | some message => exact absurd (h.failure? hf) (by simp)

/-- **Consuming kept runes moves a window over them.** -/
theorem Over.consume (h : w.Over R stop) {n : Nat} (hn : n ≤ w.ahead.length) :
    (w.consume n).2.Over R stop := by
  have htake := h.ahead_take hn
  have hle : w.offset + n ≤ R.length := by
    have := congrArg List.length h.rest
    simp only [List.length_append, List.length_drop] at this
    have := h.offset_le
    omega
  refine ⟨?_, hle, ?_, h.reason, h.ending, h.total⟩
  · show w.ahead.drop n ++ w.unread = R.drop (w.offset + n)
    rw [← List.drop_drop, ← h.rest, List.drop_append_of_le_length hn]
  · show (w.ahead.take n).getLast?.getD w.prev = (R.take (w.offset + n)).getLastD Rune.absent
    rw [htake, List.take_add, h.prev, List.getLastD_eq_getLast?, List.getLastD_eq_getLast?,
      List.getLast?_append]
    cases ((R.drop w.offset).take n).getLast? <;> simp

theorem keeps_iff {w : Window} {n : Nat} : w.keeps n = true ↔ n ≤ w.ahead.length := by
  unfold keeps
  rw [beq_iff_eq, List.length_take]
  omega

/-! ## Walking ahead, and reading to the end -/

theorem rewind_eq (w : Window) (passed : List Rune) :
    w.rewind passed = { w with ahead := passed.reverse ++ w.ahead } := by
  rw [rewind, List.reverseAux_eq]

/-- What lies behind the cursor makes no difference to the source. -/
theorem rewind_pull (w : Window) (passed : List Rune) :
    (w.rewind passed).pull = w.pull.rewind passed := by
  simp only [rewind_eq]
  unfold Window.pull
  cases he : w.ending with
  | some e => simp [he]
  | none =>
    simp only
    split
    · rfl
    · split <;> simp

/-- Walking over the rune at the cursor and looking at the next one reads the window further. -/
theorem reads_walk {w : Window} {r : Rune} {rest : List Rune} (h : w.ahead = r :: rest)
    (passed : List Rune) : Reads (w.rewind passed) (w.advance.peek.2.rewind (r :: passed)) := by
  have hback : w.advance.rewind (r :: passed) = w.rewind passed := by
    simp [rewind_eq, advance, h]
  rw [← hback]
  unfold Window.peek
  split
  · exact .refl _
  · rw [← rewind_pull]
    exact (Reads.refl _).pull

theorem reads_drainFrom (fuel : Nat) (kept : List Rune) (w : Window) :
    Reads (w.rewind kept) (drainFrom fuel kept w) := by
  induction fuel generalizing kept w with
  | zero =>
    rw [drainFrom, rewind_eq]
    exact .refl _
  | succ fuel ih =>
    -- moving the rune at the cursor over to those kept changes nothing
    have hmove {w : Window} {r : Rune} {rest : List Rune} (hw : w.ahead = r :: rest) :
        ({ w with ahead := rest } : Window).rewind (r :: kept) = w.rewind kept := by
      simp [rewind_eq, hw]
    rw [drainFrom]
    split
    next r rest hw =>
      rw [← hmove hw]
      exact ih _ _
    next hw =>
      have hpull : Reads (w.rewind kept) (w.pull.rewind kept) := by
        rw [← rewind_pull]
        exact (Reads.refl _).pull
      refine hpull.trans ?_
      simp only
      split
      next hnil =>
        rw [rewind_eq, hnil, List.append_nil]
        exact .refl _
      next r rest hw' =>
        rw [← hmove hw']
        exact ih _ _

theorem reads_drain (w : Window) : Reads w w.drain := reads_drainFrom _ [] w

/-- Draining with enough fuel reads to the end. -/
theorem drainFrom_ended (fuel : Nat) (kept : List Rune) (w : Window)
    (h : (w.ahead ++ w.unread).length < fuel) : (drainFrom fuel kept w).ending.isSome := by
  induction fuel generalizing kept w with
  | zero => exact absurd h (Nat.not_lt_zero _)
  | succ fuel ih =>
    rw [drainFrom]
    split
    next r rest hw =>
      refine ih _ _ ?_
      rw [hw] at h
      simpa [unread] using h
    next hw =>
      have hrest := pull_rest w
      simp only
      split
      next hnil =>
        obtain ⟨hend, -⟩ | ⟨r, hr⟩ := pull_ahead w
        · exact hend
        · simp [hnil] at hr
      next r rest hw' =>
        refine ih _ _ ?_
        rw [← hrest, hw'] at h
        simpa [unread] using h

/-- There are no more runes left than the source had. -/
theorem Over.left_le (h : w.Over R stop) : (w.ahead ++ w.unread).length ≤ w.total := by
  rw [h.rest, h.total, List.length_drop]
  omega

/-- Draining finds the end of the input. -/
theorem Over.drain_ended (h : w.Over R stop) : w.drain.ending.isSome :=
  drainFrom_ended _ [] w (Nat.lt_succ_of_le h.left_le)

/-- A window that was drained keeps all the rest of the input. -/
theorem Over.drain (h : w.Over R stop) : w.drain.ahead = R.drop w.offset := by
  have hrest := (reads_drain w).rest
  rw [show w.drain.unread = [] from if_pos h.drain_ended, List.append_nil] at hrest
  rw [hrest, h.rest]

/-- Asking for runes finds the end, or gets them all. -/
theorem pullMany_ahead (n : Nat) (w : Window) :
    (pullMany n w).ending.isSome ∨ (pullMany n w).ahead.length = w.ahead.length + n := by
  induction n generalizing w with
  | zero => exact .inr rfl
  | succ n ih =>
    rw [pullMany]
    split
    next hend => exact .inl hend
    · obtain ⟨hend, -⟩ | ⟨r, hr⟩ := pull_ahead w
      · refine .inl ?_
        cases n with
        | zero => exact hend
        | succ n => rw [pullMany, if_pos hend]; exact hend
      · obtain hend | hlen := ih w.pull
        · exact .inl hend
        · refine .inr ?_
          rw [hlen, hr, List.length_append, List.length_singleton]
          omega

/-- Looking ahead shows the runes of the input. -/
theorem Over.lookahead (h : w.Over R stop) (n : Nat) :
    (w.lookahead n).1 = (R.drop w.offset).take n := by
  have hrest := (reads_fill w n).rest.trans h.rest
  show (w.fill n).ahead.take n = _
  rw [← hrest]
  by_cases hn : n ≤ (w.fill n).ahead.length
  · rw [List.take_append_of_le_length hn]
  · obtain hend | hlen := pullMany_ahead (n - w.ahead.length) w
    · rw [unread, if_pos (show (w.fill n).ending.isSome from hend), List.append_nil]
    · exact absurd (show n ≤ (w.fill n).ahead.length by rw [fill, hlen]; omega) hn

end Window

end Munch
