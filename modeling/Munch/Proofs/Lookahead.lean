import Munch.Proofs.WindowOn

/-!
# What a window shows

A window shows the input of its source as if all of it were there, though it reads as little as it
can: no rune behind the one that is asked for, and nothing once the source has come to an end.

* `WindowOn.Over`: what holds of a window onto an input at any time.
* `WindowOn.Faithful`: a window after certain operations, in terms of the input alone.
* `Window.on`: how the window of a lexer is a window onto its source.

Results:
* `WindowOn.Over.fill`: which runes are kept after reading on.
* `WindowOn.Over.perform`, `WindowOn.Over.doAll`: what one operation and what a run of them shows.
* `Window.on_perform`: the window of a lexer is the window onto its source.
* **`window_is_faithful`**: what a window shows and keeps after any operations, and how its source
  is asked.
-/

namespace Munch

variable {σ : Type}

/-! ## What is kept, and how the source is asked -/

namespace WindowOn

open Window (Op)

variable {f : Feed σ}

/-- The number of runes that were read, consumed or not. -/
def read (w : WindowOn σ) : Nat := w.offset + w.ahead.length

/-- The window is one onto an input of the runes `R` that stops for the reason `stop`, and the
answers of the source are those with which the input was read. -/
structure Over (f : Feed σ) (w : WindowOn (σ × List Feed.Answer)) (R : List Rune) (stop : Stop) :
    Prop where
  ahead : w.ahead = (R.drop w.offset).take w.ahead.length
  read_le : w.read ≤ R.length
  prev : w.prev = (R.take w.offset).getLastD Rune.absent
  runes : Feed.runesOf w.source.2 = R.take w.read
  live : w.ending = none →
    f.Delivers w.source.1 (R.drop w.read) stop ∧ ∀ answer ∈ w.source.2, answer.ends = false
  ended : ∀ e, w.ending = some e → w.read = R.length ∧
    ∃ before last, w.source.2 = before ++ [last] ∧ last.ends = true ∧
      ∀ answer ∈ before, answer.ends = false

variable {w : WindowOn (σ × List Feed.Answer)} {R : List Rune} {stop : Stop}

theorem over_ofSource {s : σ} (h : f.Delivers s R stop) : (ofSource (s, [])).Over f R stop where
  ahead := rfl
  read_le := Nat.zero_le _
  prev := rfl
  runes := rfl
  live _ := ⟨h, nofun⟩
  ended := nofun

/-- A source that is asked tells that it has come to its end, or gives its next rune. -/
theorem pull_logged (hlive : w.ending = none) (h : f.Delivers w.source.1 R stop) :
    (R = [] ∧ ∃ s e before last, last.ends = true ∧ last.rune? = none ∧
      (∀ answer ∈ before, answer.ends = false ∧ answer.rune? = none) ∧
      w.pull f.logged =
        { w with source := (s, w.source.2 ++ before ++ [last]), ending := some e }) ∨
    ∃ rune rest s, R = rune :: rest ∧ f.Delivers s rest stop ∧ w.pull f.logged =
      { w with
        source := (s, w.source.2 ++ [.said false] ++ [.gave (.ok rune)])
        ahead := w.ahead ++ [rune] } := by
  obtain ⟨⟨s, log⟩, ahead, ending, prev, offset⟩ := w
  obtain rfl : ending = none := hlive
  rcases hend : f.atEnd s with ⟨_ | _, s'⟩
  · rcases hnext : f.next s' with ⟨stop' | rune, s''⟩
    · refine .inl ⟨h.of_error hend hnext, s'', ?_⟩
      have hasked : ∀ answer ∈ [Feed.Answer.said false], answer.ends = false ∧
          answer.rune? = none := by
        rintro _ (_ | ⟨_, ⟨⟩⟩)
        exact ⟨rfl, rfl⟩
      cases stop' with
      | ended =>
        exact ⟨.found, [.said false], .gave (.error .ended), rfl, rfl, hasked,
          by simp [pull, Feed.logged, hend, hnext]⟩
      | broken message =>
        exact ⟨.failed message, [.said false], .gave (.error (.broken message)), rfl, rfl, hasked,
          by simp [pull, Feed.logged, hend, hnext]⟩
    · obtain ⟨rest, hrest, hmore⟩ := h.of_rune hend hnext
      exact .inr ⟨rune, rest, s'', hrest, hmore, by simp [pull, Feed.logged, hend, hnext]⟩
  · exact .inl ⟨h.of_ended hend, s', .announced, [], .said true, rfl, rfl,
      fun _ ha => absurd ha List.not_mem_nil, by simp [pull, Feed.logged, hend]⟩

/-- Where everything is read, no more can be kept. -/
theorem Over.ahead_of_read (h : w.Over f R stop) (hread : w.read = R.length) {n : Nat}
    (hn : w.ahead.length ≤ n) : w.ahead = (R.drop w.offset).take n := by
  have hlength : (R.drop w.offset).length ≤ w.ahead.length :=
    Nat.le_of_eq (by rw [List.length_drop, ← hread, read, Nat.add_sub_cancel_left])
  have hall : w.ahead = R.drop w.offset := h.ahead.trans (List.take_of_length_le hlength)
  rw [List.take_of_length_le (Nat.le_trans hlength hn), ← hall]

/-- The source has come to its end, with the answer `last`. -/
theorem Over.halt (h : w.Over f R stop) (hlog : ∀ answer ∈ w.source.2, answer.ends = false)
    (hread : w.read = R.length) (s : σ) (e : Ending) {before : List Feed.Answer}
    {last : Feed.Answer} (hlast : last.ends = true) (hrune : last.rune? = none)
    (hbefore : ∀ answer ∈ before, answer.ends = false ∧ answer.rune? = none) :
    Over f { w with source := (s, w.source.2 ++ before ++ [last]), ending := some e } R stop where
  ahead := h.ahead
  read_le := h.read_le
  prev := h.prev
  runes := by
    have hnone : Feed.runesOf before = [] := List.filterMap_eq_nil_iff.mpr fun answer ha =>
      (hbefore answer ha).2
    show Feed.runesOf (w.source.2 ++ before ++ [last]) = R.take w.read
    rw [Feed.runesOf_append, Feed.runesOf_append, h.runes, hnone, Feed.runesOf,
      List.filterMap_cons_none hrune, List.filterMap_nil, List.append_nil, List.append_nil]
  live := nofun
  ended _ _ := ⟨hread, w.source.2 ++ before, last, rfl, hlast, fun answer ha =>
    (List.mem_append.mp ha).elim (hlog answer) fun ha => (hbefore answer ha).1⟩

/-- The rest of the input is what is kept, and then what was not read. -/
theorem Over.drop_offset (h : w.Over f R stop) : R.drop w.offset = w.ahead ++ R.drop w.read :=
  calc R.drop w.offset
    _ = (R.drop w.offset).take w.ahead.length ++ (R.drop w.offset).drop w.ahead.length :=
      (List.take_append_drop _ _).symm
    _ = w.ahead ++ R.drop w.read := by
      rw [← h.ahead, List.drop_drop]
      rfl

theorem read_gain (w : WindowOn σ) (s : σ) (rune : Rune) :
    ({ w with source := s, ahead := w.ahead ++ [rune] } : WindowOn σ).read = w.read + 1 := by
  rw [read, List.length_append]
  rfl

/-- The source has given the rune that comes next. -/
theorem Over.gain (h : w.Over f R stop) (hlive : w.ending = none)
    (hlog : ∀ answer ∈ w.source.2, answer.ends = false) {rune : Rune} {rest : List Rune} {s : σ}
    (hcons : R.drop w.read = rune :: rest) (hmore : f.Delivers s rest stop) :
    Over f
      { w with
        source := (s, w.source.2 ++ [.said false] ++ [.gave (.ok rune)])
        ahead := w.ahead ++ [rune] }
      R stop where
  ahead := by
    show w.ahead ++ [rune] = (R.drop w.offset).take (w.ahead ++ [rune]).length
    rw [h.drop_offset, hcons, List.length_append, List.take_length_add_append]
    rfl
  read_le := by
    rw [read_gain]
    refine Nat.lt_of_not_le fun hle => ?_
    rw [List.drop_eq_nil_of_le hle] at hcons
    cases hcons
  prev := h.prev
  runes := by
    rw [read_gain, List.take_add, hcons]
    show Feed.runesOf (w.source.2 ++ [.said false] ++ [.gave (.ok rune)]) = _
    rw [Feed.runesOf_append, Feed.runesOf_append, h.runes]
    exact congrArg (· ++ [rune]) (List.append_nil _)
  live _ := by
    rw [read_gain, ← List.drop_drop, hcons]
    refine ⟨hmore, fun answer ha => ?_⟩
    obtain ha | ha := List.mem_append.mp ha
    · obtain ha | ha := List.mem_append.mp ha
      · exact hlog answer ha
      · obtain rfl := List.mem_singleton.mp ha
        rfl
    · obtain rfl := List.mem_singleton.mp ha
      rfl
  ended e he := by cases hlive.symm.trans he

/-- **Asking the source** keeps the window over its input and in its place, with one rune more if
there is one. -/
theorem Over.pull (h : w.Over f R stop) :
    (w.pull f.logged).Over f R stop ∧ (w.pull f.logged).offset = w.offset ∧
      (w.pull f.logged).ahead = (R.drop w.offset).take (w.ahead.length + 1) := by
  cases hending : w.ending with
  | some e =>
    have hsame : w.pull f.logged = w := by rw [WindowOn.pull, hending]
    rw [hsame]
    exact ⟨h, rfl, h.ahead_of_read (h.ended e hending).1 (Nat.le_succ _)⟩
  | none =>
    obtain ⟨hdelivers, hlog⟩ := h.live hending
    obtain ⟨hnil, s, e, before, last, hlast, hrune, hbefore, heq⟩ |
        ⟨rune, rest, s, hcons, hmore, heq⟩ :=
      pull_logged hending hdelivers
    · have hread : w.read = R.length := Nat.le_antisymm h.read_le (List.drop_eq_nil_iff.mp hnil)
      rw [heq]
      exact ⟨h.halt hlog hread s e hlast hrune hbefore, rfl, h.ahead_of_read hread (Nat.le_succ _)⟩
    · have hover := h.gain hending hlog hcons hmore
      rw [heq]
      refine ⟨hover, rfl, hover.ahead.trans ?_⟩
      rw [List.length_append]
      rfl

/-- Asking for `n` runes more keeps the next ones, as far as there are any. -/
theorem Over.pullMany (h : w.Over f R stop) (n : Nat) :
    (pullMany f.logged n w).Over f R stop ∧ (pullMany f.logged n w).offset = w.offset ∧
      (pullMany f.logged n w).ahead = (R.drop w.offset).take (w.ahead.length + n) := by
  induction n generalizing w with
  | zero => exact ⟨h, rfl, h.ahead⟩
  | succ n ih =>
    rw [WindowOn.pullMany]
    split
    next hended =>
      obtain ⟨e, he⟩ := Option.isSome_iff_exists.mp hended
      exact ⟨h, rfl, h.ahead_of_read (h.ended e he).1 (Nat.le_add_right _ _)⟩
    · obtain ⟨hpull, hoffset, hahead⟩ := h.pull
      obtain ⟨hover, hsame, hmany⟩ := ih hpull
      refine ⟨hover, hsame.trans hoffset, hmany.trans ?_⟩
      rw [hoffset, hahead, List.length_take, List.take_eq_take_iff]
      omega

/-- **Reading on** keeps the runes that are needed, as far as there are any, and no others. -/
theorem Over.fill (h : w.Over f R stop) (n : Nat) :
    (w.fill f.logged n).Over f R stop ∧ (w.fill f.logged n).offset = w.offset ∧
      (w.fill f.logged n).ahead = (R.drop w.offset).take (max w.ahead.length n) := by
  rw [show max w.ahead.length n = w.ahead.length + (n - w.ahead.length) by omega]
  exact h.pullMany _

/-- Consuming kept runes moves the cursor over them. -/
theorem Over.consume (h : w.Over f R stop) {n : Nat} (hn : n ≤ w.ahead.length) :
    (w.consume n).Over f R stop := by
  have hread : (w.consume n).read = w.read := by
    show w.offset + n + (w.ahead.drop n).length = w.offset + w.ahead.length
    rw [List.length_drop]
    omega
  refine ⟨?_, hread ▸ h.read_le, ?_, hread ▸ h.runes, hread ▸ h.live, hread ▸ h.ended⟩
  · show w.ahead.drop n = (R.drop (w.offset + n)).take (w.ahead.drop n).length
    rw [List.length_drop, ← List.drop_drop, ← List.drop_take, ← h.ahead]
  · have htake : w.ahead.take n = (R.drop w.offset).take n := by
      rw [h.drop_offset, List.take_append_of_le_length hn]
    show (w.ahead.take n).getLast?.getD w.prev = (R.take (w.offset + n)).getLastD Rune.absent
    rw [htake, List.take_add, h.prev, List.getLastD_eq_getLast?, List.getLastD_eq_getLast?,
      List.getLast?_append]
    cases ((R.drop w.offset).take n).getLast? <;> simp

theorem Over.runes_length (h : w.Over f R stop) : (Feed.runesOf w.source.2).length = w.read := by
  rw [h.runes, List.length_take, Nat.min_eq_left h.read_le]

/-- The rune before the cursor is the last one of those consumed. -/
theorem Over.prev_getElem (h : w.Over f R stop) {n : Nat} (hn : w.offset = n + 1) :
    R[n]? = some w.prev := by
  have hlt : n < R.length := by
    have hle : w.offset ≤ R.length := Nat.le_trans (Nat.le_add_right _ _) h.read_le
    omega
  rw [h.prev, hn, List.take_add_one, List.getElem?_eq_getElem hlt]
  exact congrArg some List.getLastD_concat.symm

/-- Only the last answer of the source can be that it has ended. -/
theorem Over.quiet (h : w.Over f R stop) : ∀ answer ∈ w.source.2.dropLast, answer.ends = false := by
  cases hending : w.ending with
  | none => exact fun answer ha => (h.live hending).2 answer (List.dropLast_subset _ ha)
  | some e =>
    obtain ⟨-, before, last, hlog, -, hbefore⟩ := h.ended e hending
    rw [hlog, List.dropLast_concat]
    exact hbefore

/-- The window knows that the source has ended as soon as the source has told so. -/
theorem Over.ending_isSome (h : w.Over f R stop) :
    w.ending.isSome = true ↔ ∃ answer ∈ w.source.2, answer.ends = true := by
  cases hending : w.ending with
  | none =>
    refine ⟨nofun, fun ⟨answer, ha, hends⟩ => ?_⟩
    cases hends.symm.trans ((h.live hending).2 answer ha)
  | some e =>
    obtain ⟨-, before, last, hlog, hlast, -⟩ := h.ended e hending
    exact ⟨fun _ => ⟨last, hlog ▸ List.mem_concat_self, hlast⟩, fun _ => rfl⟩

/-- The cursor can be moved over what is kept, and over no more. -/
theorem perform_isSome (w : WindowOn σ) (op : Op) :
    (w.perform f op).isSome = true ↔ op.taken ≤ w.ahead.length := by
  have hsome (w' : WindowOn σ) : (if op.taken ≤ w'.ahead.length then
      some (op.shown w'.ahead, w'.consume op.taken) else none).isSome = true ↔
        op.taken ≤ w'.ahead.length := by
    split <;> simp_all
  refine (hsome (w.fill f op.need)).trans ?_
  cases op with
  | consume n =>
    have hnone : w.fill f 0 = w := by rw [fill, Nat.zero_sub, pullMany]
    rw [show (Op.consume n).need = 0 from rfl, hnone]
  | _ => exact ⟨fun _ => Nat.zero_le _, fun _ => Nat.zero_le _⟩

/-- **One operation** shows the input from the cursor on, moves the cursor over what it consumes,
and reads no more than it needs. -/
theorem Over.perform (h : w.Over f R stop) {op : Op} {shown : Window.Shown}
    {w' : WindowOn (σ × List Feed.Answer)} (hp : w.perform f.logged op = some (shown, w')) :
    shown = op.shows R w.offset ∧ w'.offset = w.offset + op.taken ∧ w'.Over f R stop ∧
      w'.read ≤ max w.read (w.offset + op.need) := by
  obtain ⟨hover, hoffset, hahead⟩ := h.fill op.need
  unfold WindowOn.perform at hp
  generalize w.fill f.logged op.need = w₁ at hp hover hoffset hahead
  simp only at hp
  split at hp
  next htaken =>
    cases hp
    refine ⟨?_, congrArg (· + op.taken) hoffset, hover.consume htaken, ?_⟩
    · rw [hahead] at htaken ⊢
      rw [Op.shown_take (Nat.le_max_right _ _) htaken, Op.shown_drop]
    · show w₁.offset + op.taken + (w₁.ahead.drop op.taken).length ≤ _
      rw [List.length_drop, hoffset, read]
      have hlength := congrArg List.length hahead
      rw [List.length_take] at hlength
      omega
  · cases hp

/-- **A run of operations** shows the input from where the cursor stands each time. -/
theorem Over.doAll (h : w.Over f R stop) {ops : List Op} {shown : List Window.Shown}
    {w' : WindowOn (σ × List Feed.Answer)}
    (hrun : Window.doAll (WindowOn.perform f.logged) ops w = some (shown, w')) :
    (∀ i, shown[i]? = ops[i]?.map (Op.shows R (w.offset + Window.taken (ops.take i)))) ∧
      w'.offset = w.offset + Window.taken ops ∧ w'.Over f R stop := by
  induction ops generalizing w shown with
  | nil =>
    cases hrun
    exact ⟨fun _ => rfl, rfl, h⟩
  | cons op ops ih =>
    rw [Window.doAll] at hrun
    cases hp : w.perform f.logged op with
    | none =>
      rw [hp] at hrun
      cases hrun
    | some result =>
      obtain ⟨first, w₁⟩ := result
      rw [hp] at hrun
      obtain ⟨⟨more, w₂⟩, hmore, heq⟩ := Option.map_eq_some_iff.mp hrun
      cases heq
      obtain ⟨hfirst, hoffset, hover, -⟩ := h.perform hp
      obtain ⟨hshown, hlast, hover'⟩ := ih hover hmore
      rw [hoffset] at hshown hlast
      refine ⟨fun i => ?_, by rw [hlast, Nat.add_assoc, Window.taken], hover'⟩
      cases i with
      | zero => exact congrArg some hfirst
      | succ i =>
        rw [List.getElem?_cons_succ, List.getElem?_cons_succ, List.take_succ_cons, hshown,
          Nat.add_assoc, Window.taken]

/-! ## Windows in terms of the input -/

/-- After the operations `ops`, which have shown `shown`, the window `w` shows and keeps the input
`R`, and has asked its source for no more than that takes. -/
structure Faithful (f : Feed σ) (R : List Rune) (ops : List Op) (shown : List Window.Shown)
    (w : WindowOn (σ × List Feed.Answer)) : Prop where
  /-- what is shown is the input, from where the cursor stood -/
  shown : ∀ i, shown[i]? = ops[i]?.map (Op.shows R (Window.taken (ops.take i)))
  offset : w.offset = Window.taken ops
  /-- there is no rune before the cursor at the start of the input -/
  prevNone : w.offset = 0 → w.prev = Rune.absent
  prevSome : ∀ n, w.offset = n + 1 → R[n]? = some w.prev
  /-- the source has given the first runes of the input, and those that are not consumed are kept -/
  runes : Feed.runesOf w.source.2 <+: R
  consumed : w.offset ≤ (Feed.runesOf w.source.2).length
  kept : w.ahead = (Feed.runesOf w.source.2).drop w.offset
  /-- every operation is possible, but moving the cursor behind what is kept -/
  possible : ∀ op, (w.perform f.logged op).isSome = true ↔ op.taken ≤ w.ahead.length
  /-- no rune is read behind the one that is needed -/
  reads : ∀ op shown w', w.perform f.logged op = some (shown, w') →
    (Feed.runesOf w'.source.2).length ≤ max (Feed.runesOf w.source.2).length (w.offset + op.need)
  /-- the source is asked no more when it has come to its end -/
  quiet : ∀ answer ∈ w.source.2.dropLast, answer.ends = false
  ended : w.ending.isSome = true ↔ ∃ answer ∈ w.source.2, answer.ends = true

theorem Over.faithful (h : w.Over f R stop) {ops : List Op} {shown : List Window.Shown}
    (hshown : ∀ i, shown[i]? = ops[i]?.map (Op.shows R (Window.taken (ops.take i))))
    (hoffset : w.offset = Window.taken ops) : w.Faithful f R ops shown where
  shown := hshown
  offset := hoffset
  prevNone hzero := by rw [h.prev, hzero]; rfl
  prevSome n hn := h.prev_getElem hn
  runes := h.runes ▸ List.take_prefix _ _
  consumed := h.runes_length ▸ Nat.le_add_right _ _
  kept := by rw [h.runes, List.drop_take, read, Nat.add_sub_cancel_left, ← h.ahead]
  possible := perform_isSome w
  reads op shown w' hp := by
    obtain ⟨-, -, hover, hread⟩ := h.perform hp
    rwa [h.runes_length, hover.runes_length]
  quiet := h.quiet
  ended := h.ending_isSome

end WindowOn

/-! ## The window of a lexer -/

namespace Window

/-- The window of a lexer, as one onto a source of the type of its sources. -/
def on (w : Window) : WindowOn Source := ⟨w.source, w.ahead, w.ending, w.prev, w.offset⟩

theorem on_pull (w : Window) : w.pull.on = w.on.pull Source.feed := by
  obtain ⟨s, ahead, ending, prev, offset, total⟩ := w
  cases ending with
  | some e => rfl
  | none =>
    rcases hend : s.atEnd with ⟨_ | _, s'⟩
    · rcases hnext : s'.next with ⟨(_ | message) | rune, s''⟩ <;>
        simp [pull, on, WindowOn.pull, Source.feed, hend, hnext]
    · simp [pull, on, WindowOn.pull, Source.feed, hend]

theorem on_pullMany (n : Nat) (w : Window) :
    (pullMany n w).on = WindowOn.pullMany Source.feed n w.on := by
  induction n generalizing w with
  | zero => rfl
  | succ n ih =>
    rw [pullMany, WindowOn.pullMany, ← on_pull, ← ih]
    show (if w.ending.isSome then w else _).on = if w.ending.isSome then w.on else _
    split <;> rfl

/-- Looking at the cursor is reading until one rune is kept. -/
theorem exhausted_eq (w : Window) : w.exhausted = ((w.fill 1).ahead.isEmpty, w.fill 1) := by
  have hpeek : w.peek.2 = w.fill 1 := by
    unfold peek fill
    split
    next rune rest hahead =>
      rw [hahead, List.length_cons, Nat.sub_eq_zero_of_le (Nat.succ_le_succ (Nat.zero_le _))]
      rfl
    next hahead =>
      rw [hahead]
      show w.pull = pullMany 1 w
      rw [pullMany, pullMany]
      split
      next hend => exact pull_of_ended hend
      · rfl
  show (w.peek.1.isNone, w.peek.2) = _
  rw [peek_fst, hpeek]
  cases (w.fill 1).ahead <;> rfl

/-- The window of a lexer does what the window onto its source does. -/
theorem on_perform (w : Window) (op : Op) :
    (w.perform op).map (Prod.map id on) = w.on.perform Source.feed op := by
  have hfill (n : Nat) : w.on.fill Source.feed n = (w.fill n).on := (on_pullMany _ w).symm
  unfold WindowOn.perform
  rw [hfill]
  cases op with
  | rune i => rfl
  | exhausted =>
    rw [perform, exhausted_eq]
    rfl
  | lookahead n => rfl
  | consume n =>
    have hnone : w.fill 0 = w := by rw [fill, Nat.zero_sub, pullMany]
    rw [perform, show (Op.consume n).need = 0 from rfl, hnone]
    by_cases hn : n ≤ w.ahead.length
    · simp only [if_pos (keeps_iff.mpr hn),
        if_pos (show (Op.consume n).taken ≤ w.on.ahead.length from hn)]
      rfl
    · simp only [if_neg (fun h => hn (keeps_iff.mp h)),
        if_neg (show ¬(Op.consume n).taken ≤ w.on.ahead.length from hn)]
      rfl

end Window

open WindowOn in
/-- **A window is a faithful lookahead buffer.** Do what you like with a window at the start of a
source, as long as the cursor is moved only over runes that are kept: it shows the runes of the
source from the cursor on, knows where the cursor stands and which rune stands before it, keeps what
was read and not consumed, reads no rune behind the one that is needed, and leaves the source alone
once that has come to its end. The first part is about the window of a lexer, the second about
windows onto sources of any kind. -/
theorem window_is_faithful (ops : List Window.Op) (shown : List Window.Shown) :
    (∀ (s : Source) (w : Window), Window.doAll Window.perform ops (Window.ofSource s) =
      some (shown, w) →
      ∃ w', Window.doAll (WindowOn.perform Source.feed.logged) ops (ofSource (s, [])) =
        some (shown, w') ∧
        w'.forget = w.on ∧ w'.Faithful Source.feed s.pending ops shown) ∧
    ∀ {σ : Type} {f : Feed σ} {s : σ} {R : List Rune} {stop : Stop}, f.Delivers s R stop →
      ∀ w, Window.doAll (WindowOn.perform f) ops (ofSource s) = some (shown, w) →
        ∃ w', Window.doAll (WindowOn.perform f.logged) ops (ofSource (s, [])) = some (shown, w') ∧
          w'.forget = w ∧ w'.Faithful f R ops shown := by
  have hany {σ : Type} {f : Feed σ} {s : σ} {R : List Rune} {stop : Stop} (h : f.Delivers s R stop)
      (w : WindowOn σ)
      (hrun : Window.doAll (WindowOn.perform f) ops (ofSource s) = some (shown, w)) :
      ∃ w', Window.doAll (WindowOn.perform f.logged) ops (ofSource (s, [])) = some (shown, w') ∧
        w'.forget = w ∧ w'.Faithful f R ops shown := by
    have hforget := Window.doAll_map (forget_perform (f := f)) ops (ofSource (s, []))
    obtain ⟨⟨shown', w'⟩, hlogged, heq⟩ := Option.map_eq_some_iff.mp (hforget.trans hrun)
    cases heq
    obtain ⟨hshown, hoffset, hover⟩ := (over_ofSource h).doAll hlogged
    exact ⟨w', hlogged, rfl,
      hover.faithful (by simpa [ofSource] using hshown) (by simpa [ofSource] using hoffset)⟩
  refine ⟨fun s w hrun => ?_, hany⟩
  have hon := Window.doAll_map Window.on_perform ops (Window.ofSource s)
  rw [hrun] at hon
  exact hany s.feed_delivers w.on hon.symm

/-- Looking behind the end, consuming in between, and looking at the end again. -/
def peekingAbout : List Window.Op :=
  [.exhausted, .rune 4, .rune 5, .consume 2, .lookahead 16, .lookahead 2, .consume 3, .exhausted]

/-- What the operations `peekingAbout` show of five runes. -/
def peekedAt (a b c d e : Rune) : List Window.Shown :=
  [.exhausted false, .rune (some e), .rune none, .runes [a, b], .runes [c, d, e], .runes [c, d],
    .runes [c, d, e],
    .exhausted true]

/-- The answers on a tape, without announcing an end. -/
def tapeFeed : Feed (List (Except Stop Rune)) := ⟨fun tape => (false, tape), readTape⟩

/-- A tape that breaks and would go on. -/
def brokenTape : List (Except Stop Rune) :=
  [.ok 1, .ok 2, .ok 3, .ok 4, .ok 5, .error (.broken "torn"), .ok 6]

theorem window_is_faithful_hello :
    (∃ (w : Window) (w' : WindowOn (Source × List Feed.Answer)),
      Window.doAll Window.perform peekingAbout
        (Window.ofSource (Source.ofText "hello")) = some (peekedAt 104 101 108 108 111, w) ∧
      w'.forget = w.on ∧
      w'.Faithful Source.feed [104, 101, 108, 108, 111] peekingAbout
        (peekedAt 104 101 108 108 111)) ∧
    ∃ (w : WindowOn (List (Except Stop Rune)))
      (w' : WindowOn (List (Except Stop Rune) × List Feed.Answer)),
      tapeFeed.Delivers brokenTape [1, 2, 3, 4, 5] (.broken "torn") ∧
      Window.doAll (WindowOn.perform tapeFeed) peekingAbout (WindowOn.ofSource brokenTape) =
        some (peekedAt 1 2 3 4 5, w) ∧
      w.source = [.ok 6] ∧ w'.forget = w ∧
        w'.Faithful tapeFeed [1, 2, 3, 4, 5] peekingAbout (peekedAt 1 2 3 4 5) := by
  have hbroken : tapeFeed.Delivers brokenTape [1, 2, 3, 4, 5] (.broken "torn") :=
    .rune rfl rfl (.rune rfl rfl (.rune rfl rfl (.rune rfl rfl (.rune rfl rfl (.stopped rfl rfl)))))
  obtain ⟨w₁, -, hforget₁, hfaithful₁⟩ :=
    (window_is_faithful peekingAbout (peekedAt 104 101 108 108 111)).1 (Source.ofText "hello") _ rfl
  obtain ⟨w₂, -, hforget₂, hfaithful₂⟩ :=
    (window_is_faithful peekingAbout (peekedAt 1 2 3 4 5)).2 hbroken _ rfl
  exact ⟨⟨_, w₁, rfl, hforget₁, hfaithful₁⟩, _, w₂, hbroken, rfl, rfl, hforget₂, hfaithful₂⟩

end Munch
