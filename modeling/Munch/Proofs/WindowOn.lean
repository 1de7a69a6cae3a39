import Munch.Proofs.Feed
import Munch.Proofs.Window

/-!
# Windows onto sources of any kind

A window is asked for runes ahead of the cursor, in any order, and the cursor is moved over runes
that are kept. A source may be of any kind here. `WindowOn σ` is the window onto a source of the
type `σ`. What a source is asked cannot be seen in the source, so the window looks at a source that
notes its answers, `Feed.logged`; `WindowOn.forget` drops the notes.

* `Feed.Delivers f s R stop`: asked for its end and for a rune again and again, `s` delivers `R` and
  then stops for the reason `stop`, with or without announcing it.
* `Window.Op`, `Window.Shown`: what can be done with a window, and what it shows.

Results:
* `Source.feed_delivers`: a source delivers the runes it has.
* `Window.doAll_map`: a map that commutes with one operation commutes with a run of them.
* `WindowOn.forget_perform`: noting the answers of a source makes no difference.
-/

namespace Munch

variable {σ : Type}

/-! ## Sources that deliver runes -/

namespace Feed

/-- Asked for its end and then for a rune, again and again, the source delivers the runes and comes
to an end. -/
inductive Delivers (f : Feed σ) : σ → List Rune → Stop → Prop
  | announced {s s' : σ} (h : f.atEnd s = (true, s')) : Delivers f s [] .ended
  | stopped {s s' s'' : σ} {stop : Stop} (h : f.atEnd s = (false, s'))
      (hnext : f.next s' = (.error stop, s'')) : Delivers f s [] stop
  | rune {s s' s'' : σ} {rune : Rune} {rest : List Rune} {stop : Stop} (h : f.atEnd s = (false, s'))
      (hnext : f.next s' = (.ok rune, s'')) (more : Delivers f s'' rest stop) :
        Delivers f s (rune :: rest) stop

theorem Delivers.of_ended {f : Feed σ} {s s' : σ} {R : List Rune} {stop : Stop}
    (h : f.Delivers s R stop) (hend : f.atEnd s = (true, s')) : R = [] := by
  cases h with
  | announced => rfl
  | stopped h => cases h.symm.trans hend
  | rune h => cases h.symm.trans hend

theorem Delivers.of_error {f : Feed σ} {s s' s'' : σ} {R : List Rune} {stop stop' : Stop}
    (h : f.Delivers s R stop) (hend : f.atEnd s = (false, s'))
    (hnext : f.next s' = (.error stop', s'')) : R = [] := by
  cases h with
  | announced h => cases h.symm.trans hend
  | stopped => rfl
  | rune h hnext' =>
    cases h.symm.trans hend
    cases hnext'.symm.trans hnext

theorem Delivers.of_rune {f : Feed σ} {s s' s'' : σ} {R : List Rune} {stop : Stop} {rune : Rune}
    (h : f.Delivers s R stop) (hend : f.atEnd s = (false, s'))
    (hnext : f.next s' = (.ok rune, s'')) :
    ∃ rest, R = rune :: rest ∧ f.Delivers s'' rest stop := by
  cases h with
  | announced h => cases h.symm.trans hend
  | stopped h hnext' =>
    cases h.symm.trans hend
    cases hnext'.symm.trans hnext
  | rune h hnext' more =>
    cases h.symm.trans hend
    cases hnext'.symm.trans hnext
    exact ⟨_, rfl, more⟩

/-- The answer shows that the source has come to its end. -/
def Answer.ends : Answer → Bool
  | .said ended => ended
  | .gave (.error _) => true
  | .gave (.ok _) => false

/-- The rune that was given. -/
def Answer.rune? : Answer → Option Rune
  | .gave (.ok rune) => some rune
  | _ => none

/-- The runes among answers. -/
def runesOf (log : List Answer) : List Rune := log.filterMap Answer.rune?

theorem runesOf_append (log more : List Answer) :
    runesOf (log ++ more) = runesOf log ++ runesOf more :=
  List.filterMap_append

end Feed

/-- A source of a lexer delivers its pending runes. -/
theorem Source.feed_delivers (s : Source) : Source.feed.Delivers s s.pending s.reason := by
  generalize hR : s.pending = R
  induction R generalizing s with
  | nil =>
    rcases hend : s.atEnd with ⟨_ | _, s'⟩
    · have hpending := atEnd_pending s
      have hreason := atEnd_reason s
      rw [hend] at hpending hreason
      rcases hnext : s'.next with ⟨stop | rune, s''⟩
      · rw [← hreason, ← (next_error hnext).2.1]
        exact .stopped hend hnext
      · cases (hpending.trans hR).symm.trans (next_ok hnext).1
    · rw [(atEnd_true (s := s) (by rw [hend])).2]
      exact .announced hend
  | cons rune R ih =>
    rcases hend : s.atEnd with ⟨_ | _, s'⟩
    · have hpending := atEnd_pending s
      have hreason := atEnd_reason s
      rw [hend] at hpending hreason
      rcases hnext : s'.next with ⟨stop | rune', s''⟩
      · cases (hpending.trans hR).symm.trans (next_error hnext).1
      · obtain ⟨hcons, hsame⟩ := next_ok hnext
        obtain ⟨rfl, hrest⟩ := List.cons.inj ((hpending.trans hR).symm.trans hcons)
        rw [← hreason, ← hsame]
        exact .rune hend hnext (ih s'' hrest.symm)
    · cases hR.symm.trans (atEnd_true (s := s) (by rw [hend])).1

/-! ## Operations -/

namespace Window

/-- What can be done with a window. -/
inductive Op where
  /-- look at the rune `i` places behind the cursor -/
  | rune (i : Nat)
  /-- is there no more rune at the cursor? -/
  | exhausted
  /-- look at `n` runes from the cursor on -/
  | lookahead (n : Nat)
  /-- move the cursor over `n` runes that are kept -/
  | consume (n : Nat)
  deriving DecidableEq, Repr, Inhabited

/-- What a window shows. -/
inductive Shown where
  | rune (rune : Option Rune)
  | exhausted (isOver : Bool)
  | runes (runes : List Rune)
  deriving DecidableEq, Repr, Inhabited

/-- The number of runes that the cursor is moved over. -/
def Op.taken : Op → Nat
  | consume n => n
  | _ => 0

/-- The number of runes that the cursor has been moved over. -/
def taken : List Op → Nat
  | [] => 0
  | op :: ops => op.taken + taken ops

/-- The number of runes to be kept for what is to be shown. -/
def Op.need : Op → Nat
  | rune i => i + 1
  | exhausted => 1
  | lookahead n => n
  | consume _ => 0

/-- What is shown of the runes that are kept. -/
def Op.shown (ahead : List Rune) : Op → Shown
  | rune i => .rune ahead[i]?
  | exhausted => .exhausted ahead.isEmpty
  | lookahead n => .runes (ahead.take n)
  | consume n => .runes (ahead.take n)

/-- What is to be shown of the input `R` with the cursor in front of its rune number `offset`. -/
def Op.shows (R : List Rune) (offset : Nat) : Op → Shown
  | rune i => .rune R[offset + i]?
  | exhausted => .exhausted (R.length ≤ offset)
  | lookahead n => .runes ((R.drop offset).take n)
  | consume n => .runes ((R.drop offset).take n)

/-- An input is shown as if all of it were kept. -/
theorem Op.shown_drop (R : List Rune) (offset : Nat) (op : Op) :
    op.shown (R.drop offset) = op.shows R offset := by
  cases op with
  | rune i => rw [shown, shows, List.getElem?_drop]
  | exhausted => exact congrArg Shown.exhausted (Bool.eq_iff_iff.mpr (by simp))
  | lookahead n => rfl
  | consume n => rfl

/-- It is enough to keep what is needed. -/
theorem Op.shown_take {op : Op} {n : Nat} {rest : List Rune} (hneed : op.need ≤ n)
    (htaken : op.taken ≤ (rest.take n).length) : op.shown (rest.take n) = op.shown rest := by
  cases op with
  | rune i =>
    have hlt : i < n := hneed
    rw [shown, shown, List.getElem?_take_of_lt hlt]
  | exhausted =>
    obtain ⟨m, rfl⟩ := Nat.exists_eq_add_of_le' hneed
    cases rest <;> rfl
  | lookahead m => rw [shown, shown, List.take_take, Nat.min_eq_left (show m ≤ n from hneed)]
  | consume m =>
    have hle : m ≤ n := Nat.le_trans htaken (by rw [List.length_take]; exact Nat.min_le_left _ _)
    rw [shown, shown, List.take_take, Nat.min_eq_left hle]

/-- Does something with a window; `none` if the cursor would leave the runes that are kept. -/
def perform (w : Window) : Op → Option (Shown × Window)
  | .rune i => some (.rune (w.at? i).1, (w.at? i).2)
  | .exhausted => some (.exhausted w.exhausted.1, w.exhausted.2)
  | .lookahead n => some (.runes (w.lookahead n).1, (w.lookahead n).2)
  | .consume n => if w.keeps n then some (.runes (w.consume n).1, (w.consume n).2) else none

/-- Does one thing after the other. -/
def doAll {W : Type} (perform : W → Op → Option (Shown × W)) : List Op → W → Option (List Shown × W)
  | [], w => some ([], w)
  | op :: ops, w =>
    match perform w op with
    | none => none
    | some (shown, w) => (doAll perform ops w).map fun (more, w) => (shown :: more, w)

/-- What is kept by doing one thing is kept by doing many. -/
theorem doAll_map {W W' : Type} {g : W → W'} {p : W → Op → Option (Shown × W)}
    {p' : W' → Op → Option (Shown × W')} (h : ∀ w op, (p w op).map (Prod.map id g) = p' (g w) op)
    (ops : List Op) (w : W) :
    (doAll p ops w).map (Prod.map id g) = doAll p' ops (g w) := by
  induction ops generalizing w with
  | nil => rfl
  | cons op ops ih =>
    rw [doAll, doAll, ← h]
    cases p w op with
    | none => rfl
    | some result =>
      obtain ⟨shown, w'⟩ := result
      show _ = (doAll p' ops (g w')).map _
      rw [← ih, Option.map_map, Option.map_map]
      rfl

end Window

/-! ## Windows onto sources of any kind -/

/-- The runes read but not consumed of a source of the type `σ`, and where the cursor stands. -/
structure WindowOn (σ : Type) where
  source : σ
  ahead : List Rune := []
  ending : Option Ending := none
  prev : Rune := Rune.absent
  offset : Nat := 0

namespace WindowOn

open Window (Op)

/-- A window at the start of a source. -/
def ofSource (s : σ) : WindowOn σ := { source := s }

/-- Asks the source for one rune. -/
def pull (f : Feed σ) (w : WindowOn σ) : WindowOn σ :=
  match w.ending with
  | some _ => w
  | none =>
    match f.atEnd w.source with
    | (true, source) => { w with source := source, ending := some .announced }
    | (false, source) =>
      match f.next source with
      | (.ok rune, source) => { w with source := source, ahead := w.ahead ++ [rune] }
      | (.error .ended, source) => { w with source := source, ending := some .found }
      | (.error (.broken message), source) =>
        { w with source := source, ending := some (.failed message) }

/-- Asks the source for `n` more runes. -/
def pullMany (f : Feed σ) : (n : Nat) → WindowOn σ → WindowOn σ
  | 0, w => w
  | n + 1, w => if w.ending.isSome then w else pullMany f n (w.pull f)

/-- Reads until `n` runes are kept or the source stops. -/
def fill (f : Feed σ) (w : WindowOn σ) (n : Nat) : WindowOn σ := pullMany f (n - w.ahead.length) w

/-- Moves the cursor over `n` runes. -/
def consume (w : WindowOn σ) (n : Nat) : WindowOn σ :=
  { w with
    ahead := w.ahead.drop n
    offset := w.offset + n
    prev := (w.ahead.take n).getLast?.getD w.prev }

/-- Does something with a window: reads on as far as needed, shows something, and moves the cursor;
`none` if the cursor would leave the runes that are kept. -/
def perform (f : Feed σ) (w : WindowOn σ) (op : Op) : Option (Window.Shown × WindowOn σ) :=
  let w := w.fill f op.need
  if op.taken ≤ w.ahead.length then some (op.shown w.ahead, w.consume op.taken) else none

/-- The window without the answers that its source has given. -/
def forget (w : WindowOn (σ × List Feed.Answer)) : WindowOn σ :=
  ⟨w.source.1, w.ahead, w.ending, w.prev, w.offset⟩

variable {f : Feed σ}

theorem forget_pull (w : WindowOn (σ × List Feed.Answer)) :
    (w.pull f.logged).forget = w.forget.pull f := by
  obtain ⟨⟨s, log⟩, ahead, ending, prev, offset⟩ := w
  cases ending with
  | some e => rfl
  | none =>
    rcases hend : f.atEnd s with ⟨_ | _, s'⟩
    · rcases hnext : f.next s' with ⟨(_ | message) | rune, s''⟩ <;>
        simp [pull, forget, Feed.logged, hend, hnext]
    · simp [pull, forget, Feed.logged, hend]

theorem forget_pullMany (n : Nat) (w : WindowOn (σ × List Feed.Answer)) :
    (pullMany f.logged n w).forget = pullMany f n w.forget := by
  induction n generalizing w with
  | zero => rfl
  | succ n ih =>
    rw [pullMany, pullMany, ← forget_pull, ← ih]
    show (if w.ending.isSome then w else _).forget = if w.ending.isSome then w.forget else _
    split <;> rfl

/-- Logging the answers of a source makes no difference to what a window does. -/
theorem forget_perform (w : WindowOn (σ × List Feed.Answer)) (op : Op) :
    (w.perform f.logged op).map (Prod.map id forget) = w.forget.perform f op := by
  have hfill : (w.fill f.logged op.need).forget = w.forget.fill f op.need := forget_pullMany _ w
  unfold perform
  rw [← hfill]
  generalize w.fill f.logged op.need = w'
  by_cases htaken : op.taken ≤ w'.ahead.length
  · simp only [if_pos htaken, if_pos (show op.taken ≤ w'.forget.ahead.length from htaken)]
    rfl
  · simp only [if_neg htaken, if_neg (show ¬op.taken ≤ w'.forget.ahead.length from htaken)]
    rfl

end WindowOn

end Munch
