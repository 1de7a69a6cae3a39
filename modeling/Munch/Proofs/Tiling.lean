import Munch.Proofs.Steps

/-!
# The matches on a source tile it

Whatever actions and token handlers do in the middle of a scan, the matches dispatched on one source
follow each other without a gap from its first rune on, and each token carries the match that its
action was called for.

* `Tiles R a cs b`: the contexts `cs` are those of matches that follow each other from the rune `a`
  of the input `R` to its rune `b`.
* `Emitted open es`: each token handed over in `es` is one of the match dispatched last that is not
  over, the matches `open` being the ones that are not over at the start.

Results:
* `Lexer.Located.looks` and `Lexer.Located.consumed`: the window, the line and the matches so far
  agree, and stay so when a match is looked for and when it is consumed.
* `Run.emitted`: tokens carry the match of their action.
* **`matches_tile_source`**: no input is lost, repeated or mislocated.
-/

namespace Munch

variable {α η υ : Type}

/-! ## Tilings -/

/-- The context of a match of the runes of `R` from `a` to `b`. -/
structure Covers (R : List Rune) (a b : Nat) (c : Context) : Prop where
  span : c.span = ⟨a, b⟩
  nonempty : a < b
  inside : b ≤ R.length
  text : c.text = Text.ofRunes ((R.drop a).take (b - a))
  line : c.line = 1 + (R.take b).count Rune.newline

/-- Matches that follow each other from the rune `a` to the rune `b`. -/
inductive Tiles (R : List Rune) : (a : Nat) → List Context → (b : Nat) → Prop
  | nil (a : Nat) : Tiles R a [] a
  | cons {a b d : Nat} {c : Context} {cs : List Context} (hc : Covers R a b c)
      (h : Tiles R b cs d) : Tiles R a (c :: cs) d

theorem Tiles.concat {R : List Rune} {a b d : Nat} {cs : List Context} {c : Context}
    (h : Tiles R a cs b) (hc : Covers R b d c) : Tiles R a (cs ++ [c]) d := by
  induction h with
  | nil a => exact .cons hc (.nil d)
  | cons hc' _ ih => exact .cons hc' (ih hc)

theorem Tiles.le_length {R : List Rune} {a b : Nat} {cs : List Context} (h : Tiles R a cs b)
    (ha : a ≤ R.length) : b ≤ R.length := by
  induction h with
  | nil a => exact ha
  | cons hc _ ih => exact ih hc.inside

/-! ## Lines -/

/-- A rune that has a character is the code of it. -/
theorem Rune.eq_of_char? {r : Rune} {c : Char} (h : r.char? = some c) : r = c.toNat := by
  unfold Rune.char? at h
  simp only at h
  split at h
  · cases h
  next hneg =>
    split at h
    next hvalid =>
      have hchar : r.toNat.isValidChar := hvalid.imp_right fun hv => ⟨by omega, by omega⟩
      rw [← Option.some.inj h, Char.ofNat, dif_pos hchar]
      exact (Int.toNat_of_nonneg (Int.not_lt.mp hneg)).symm
    · cases h

theorem symbol_is_newline (r : Rune) : r.symbol.is '\n' = (r == Rune.newline) := by
  unfold Rune.symbol Symbol.is
  rw [Bool.eq_iff_iff, beq_iff_eq, beq_iff_eq]
  constructor
  · cases hr : r.char? with
    | none => exact fun h => absurd h (by decide)
    | some c =>
      rintro rfl
      rw [Rune.eq_of_char? hr]
      rfl
  · rintro rfl
    rfl

theorem newlines_ofRunes (rs : List Rune) : (Text.ofRunes rs).newlines = rs.count Rune.newline := by
  rw [Text.newlines, Text.ofRunes, List.countP_map, List.count]
  exact List.countP_congr fun r _ => by rw [Function.comp_apply, symbol_is_newline]

namespace Lexer

/-! ## Where the scan is -/

/-- The scan of the source `s` with the events `seg` so far is where the lexer says that it is: the
matches tile the source up to the cursor, the line is that of the cursor, and a scan that is over
has come to the end. -/
structure Located (s : Source) (seg : List (Event α υ)) (lx : Lexer α η) (w : Window) : Prop where
  window : lx.window = some w
  onto : w.Over s.pending s.reason
  tiles : Tiles s.pending 0 (contexts seg) w.offset
  line : lx.context.line = 1 + (s.pending.take w.offset).count Rune.newline
  exhausted : .exhausted ∈ seg → w.offset = s.pending.length
  phase : lx.phase = .exhausted → w.offset = s.pending.length

/-- What holds of a lexer after the events `es`: of the scan in progress, if there is one. -/
def Placed (es : List (Event α υ)) (lx : Lexer α η) : Prop :=
  match scanOf es with
  | none => lx.window = none ∧ lx.phase ≠ .exhausted
  | some (s, seg) => ∃ w, Located s seg lx w

variable {es : List (Event α υ)} {lx lx' : Lexer α η} {s : Source} {seg : List (Event α υ)}
  {w : Window}

theorem Placed.onto (h : Placed es lx) : ∀ w, lx.window = some w → ∃ R stop, w.Over R stop := by
  intro w hw
  unfold Placed at h
  split at h
  · cases h.1.symm.trans hw
  next s seg _ =>
    obtain ⟨w', hl⟩ := h
    cases hw.symm.trans hl.window
    exact ⟨_, _, hl.onto⟩

/-- Only the window, the line and the phase decide where a scan is. -/
theorem Placed.congr (h : Placed es lx) (hw : lx'.window = lx.window)
    (hline : lx'.context.line = lx.context.line)
    (hp : lx'.phase = .exhausted → lx.phase = .exhausted) : Placed es lx' := by
  unfold Placed at h ⊢
  split at h
  · exact ⟨hw.trans h.1, fun hx => h.2 (hp hx)⟩
  · obtain ⟨w, hl⟩ := h
    exact ⟨w, hw.trans hl.window, hl.onto, hl.tiles, hline.trans hl.line, hl.exhausted,
      fun hx => hl.phase (hp hx)⟩

/-- An event that is neither a match nor an end changes nothing. -/
theorem Placed.event (h : Placed es lx) {e : Event α υ} (ha : e.attaches = false)
    (hd : contexts [e] = []) (hx : e ≠ .exhausted) : Placed (es ++ [e]) lx := by
  unfold Placed at h ⊢
  rw [scanOf_append (by simpa using ha)]
  split at h
  next hs =>
    rw [hs]
    exact h
  next s seg hs =>
    obtain ⟨w, hl⟩ := h
    rw [hs]
    refine ⟨w, hl.window, hl.onto, ?_, hl.line, fun hmem => hl.exhausted ?_, hl.phase⟩
    · rw [contexts_append, hd, List.append_nil]
      exact hl.tiles
    · obtain hmem | hmem := List.mem_append.mp hmem
      · exact hmem
      · exact absurd (List.mem_singleton.mp hmem).symm hx

/-- Looking for a match leaves the scan where it is, unless it finds the end. -/
theorem Located.looks (h : Located s seg lx w) (hl : Looks lx lx') (hp : lx'.phase ≠ .exhausted) :
    ∃ w', Located s seg lx' w' ∧ Window.Reads w w' := by
  obtain ⟨w', hw', hreads⟩ := hl.window h.window
  have hoffset := hreads.fixed.1
  refine ⟨w', ⟨hw', hreads.onto h.onto, ?_, ?_, ?_, fun hx => absurd hx hp⟩, hreads⟩
  · rw [hoffset]
    exact h.tiles
  · rw [hoffset, hl.kept.context]
    exact h.line
  · rw [hoffset]
    exact h.exhausted

/-- **Consuming a match adds it to the tiling.** -/
theorem Located.consumed (h : Located s seg lx w) {n : Nat} (hpos : 0 < n) (hn : w.keeps n = true)
    (t : Taker α) (hp : lx.phase = .dispatching) :
    ∃ w', Located s (seg ++ [.dispatched t (lx.consumed n w).context]) (lx.consumed n w) w' := by
  rw [Window.keeps_iff] at hn
  have hover := h.onto.consume hn
  have htaken : w.ahead.take n = (s.pending.drop w.offset).take n := h.onto.ahead_take hn
  have hline : (lx.consumed n w).context.line =
      1 + (s.pending.take (w.offset + n)).count Rune.newline := by
    show lx.context.line + (Text.ofRunes (w.ahead.take n)).newlines = _
    rw [newlines_ofRunes, htaken, h.line, List.take_add, List.count_append]
    omega
  have hcovers : Covers s.pending w.offset (w.offset + n) (lx.consumed n w).context := by
    refine ⟨rfl, Nat.lt_add_of_pos_right hpos, hover.offset_le, ?_, hline⟩
    show Text.ofRunes (w.ahead.take n) = _
    rw [htaken, Nat.add_sub_cancel_left]
  refine ⟨(w.consume n).2, rfl, hover, ?_, hline, fun hmem => ?_, fun hx => ?_⟩
  · rw [contexts_append]
    exact h.tiles.concat hcovers
  · rw [List.mem_append, List.mem_singleton] at hmem
    obtain hmem | hmem := hmem
    · have := h.exhausted hmem
      have := hcovers.inside
      omega
    · cases hmem
  · exact absurd (hp.symm.trans hx) (by rintro ⟨⟩)

/-- A step that finds the input consumed has come to the end of the source. -/
theorem Placed.stop (h : Placed es lx) {p : Progress} (haim : lx.aim = (.stop p, lx')) :
    Placed (es ++ stopEvents p) lx' := by
  have hl := looks_aim h.onto
  obtain ⟨hiff, hdone⟩ := aim_done h.onto
  rw [haim] at hl hiff hdone
  unfold Placed at h ⊢
  rw [scanOf_append (stopEvents_attaches p)]
  split at h
  next hs =>
    rw [hs]
    obtain ⟨q, hq, hqdone⟩ | ⟨w, hw, -⟩ := aim_cases lx
    · cases hq.symm.trans haim
      exact h
    · cases h.1.symm.trans hw
  next s seg hs =>
    obtain ⟨w, hloc⟩ := h
    rw [hs]
    obtain ⟨w', hw', hreads⟩ := hl.window hloc.window
    have hoffset := hreads.fixed.1
    have hend (hp : p = .done) : w'.offset = s.pending.length := by
      rw [hoffset]
      obtain hx | ⟨v, hv, hx⟩ := hdone (by rw [hp])
      · exact hloc.phase hx
      · cases hloc.window.symm.trans hv
        exact Nat.le_antisymm hloc.onto.offset_le (hloc.onto.exhausted.mp hx)
    refine ⟨w', hw', hreads.onto hloc.onto, ?_, ?_, fun hmem => ?_, fun hx => ?_⟩
    · have hnone : contexts (stopEvents (α := α) (υ := υ) p) = [] := by cases p <;> rfl
      rw [hoffset, contexts_append, hnone, List.append_nil]
      exact hloc.tiles
    · rw [hoffset, hl.kept.context]
      exact hloc.line
    · rw [List.mem_append] at hmem
      obtain hmem | hmem := hmem
      · rw [hoffset]
        exact hloc.exhausted hmem
      · cases p <;> simp [stopEvents] at hmem
        exact hend rfl
    · exact hend (Aim.stop.inj (hiff.mpr hx))

theorem Placed.take (h : Placed es lx) {t : Taker α} {n : Nat}
    (haim : lx.aim = (.take t n w, lx')) :
    0 < n ∧ ∃ s seg, scanOf es = some (s, seg) ∧
      Located s seg { lx' with phase := .dispatching } w := by
  have hl := (looks_aim h.onto).phase .dispatching
  obtain ⟨hw, -, -, hpos⟩ := aim_take h.onto haim
  rw [haim] at hl
  refine ⟨hpos, ?_⟩
  unfold Placed at h
  split at h
  next hs =>
    obtain ⟨q, hq, -⟩ | ⟨v, hv, -⟩ := aim_cases lx
    · cases hq.symm.trans haim
    · cases h.1.symm.trans hv
  next s seg hs =>
    obtain ⟨v, hloc⟩ := h
    obtain ⟨w', hloc', -⟩ := hloc.looks hl (by rintro ⟨⟩)
    cases hw.symm.trans hloc'.window
    exact ⟨s, seg, hs, hloc'⟩

/-- Where the scan is stays right with every call, and every part of a step. -/
theorem invariant_placed : Invariant (Placed (α := α) (η := η) (υ := υ)) where
  register := by
    intro es lx h s
    have hr := Setting.registered lx s
    exact h.congr hr.window (congrArg Context.line hr.context) fun hx => hr.phase.symm.trans hx
  begin := by
    intro es lx lx' h state hbegin
    unfold Lexer.begin at hbegin
    split at hbegin
    · cases hbegin
    · split at hbegin <;> cases hbegin
      · exact h
      · exact h.congr rfl rfl id
  attach := by
    intro es lx h s
    have ha := attached_attachSource lx s
    unfold Placed
    rw [scanOf_attached]
    refine ⟨.ofSource s, ha.window, Window.over_ofSource s, .nil 0, ?_, by rintro ⟨⟩, fun hx => ?_⟩
    · rw [ha.context]
      rfl
    · cases ha.phase.symm.trans hx
  fail h e := h.congr rfl rfl (by rintro ⟨⟩)
  note h level n := h.congr rfl rfl id
  stop h haim := h.stop haim
  broken := by
    intro es lx lx' t n w h haim
    obtain ⟨-, s, seg, hs, hloc⟩ := h.take haim
    unfold Placed
    rw [hs]
    exact ⟨w, hloc⟩
  dispatched := by
    intro es lx lx' t n w h haim hkeeps
    obtain ⟨hpos, s, seg, hs, hloc⟩ := h.take haim
    unfold Placed
    rw [scanOf_append (by simp [Event.attaches]), hs]
    exact hloc.consumed hpos hkeeps t rfl
  delivered h t := h.event rfl rfl (by rintro ⟨⟩)
  returned h := h.event rfl rfl (by rintro ⟨⟩)
  resumed h _ := h.congr rfl rfl (by rintro ⟨⟩)

end Lexer

/-! ## Tokens -/

/-- Each token handed over is one of the match dispatched last that is not over; `opened` are the
matches that are not over at the start, the latest first. -/
inductive Emitted : (opened : List Context) → List (Event α υ) → Prop
  | nil (opened : List Context) : Emitted opened []
  | attached {opened : List Context} {es : List (Event α υ)} (s : Source) (h : Emitted opened es) :
      Emitted opened (.attached s :: es)
  | dispatched {opened : List Context} {es : List (Event α υ)} (t : Lexer.Taker α) {c : Context}
      (h : Emitted (c :: opened) es) : Emitted opened (.dispatched t c :: es)
  | delivered {opened : List Context} {es : List (Event α υ)} {c : Context} {t : Token υ}
      (ht : t.text = c.text ∧ t.line = c.line ∧ t.span = c.span) (h : Emitted (c :: opened) es) :
      Emitted (c :: opened) (.delivered t :: es)
  | returned {opened : List Context} {es : List (Event α υ)} (c : Context) (h : Emitted opened es) :
      Emitted (c :: opened) (.returned :: es)
  | exhausted {opened : List Context} {es : List (Event α υ)} (h : Emitted opened es) :
      Emitted opened (.exhausted :: es)

/-- A token carries the text, the line and the span of the match it was emitted for. -/
theorem Lexer.effect_token {c : Context} {reply : Reply υ} {lx : Lexer α η} {handler : η}
    {t : Token υ} (h : lx.effect c reply = .token handler t) :
    t.text = c.text ∧ t.line = c.line ∧ t.span = c.span := by
  unfold Lexer.effect at h
  split at h
  · cases h
  · cases h
  · split at h
    · cases h
    · split at h
      · cases h
      · split at h
        · cases h
        · cases h
          exact ⟨rfl, rfl, rfl⟩

/-- The events of an action belong to the match it was called for, if those of its calls do. -/
theorem Lexer.emitted_actionEvents {ω : Type} (h : Host α η υ ω) {k : Chronicle α η υ ω}
    (act : ∀ a c lx world opened rest, Emitted opened rest →
      Emitted opened (k.act a c lx world ++ rest))
    (deliver : ∀ handler t lx world opened rest, Emitted opened rest →
      Emitted opened (k.deliver handler t lx world ++ rest))
    (action : Option α) (lx : Lexer α η) (world : ω) {opened : List Context}
    {rest : List (Event α υ)} (hrest : Emitted opened rest) :
    Emitted (lx.context :: opened) (lx.actionEvents h k action world ++ .returned :: rest) := by
  have hreturned : Emitted (lx.context :: opened) (.returned :: rest) := .returned _ hrest
  unfold Lexer.actionEvents
  cases action with
  | none => exact hreturned
  | some a =>
    simp only
    rw [List.append_assoc]
    refine act _ _ _ _ _ _ ?_
    split
    next handler t heq => exact .delivered (Lexer.effect_token heq) (deliver _ _ _ _ _ _ hreturned)
    · exact hreturned

/-- **Tokens carry the match of their action**, whatever happened between the match and the
token. -/
theorem Run.emitted {lx lx' : Lexer α η} {es : List (Event α υ)} (run : Run lx es lx')
    (opened : List Context) {rest : List (Event α υ)} (hrest : Emitted opened rest) :
    Emitted opened (es ++ rest) := by
  induction run generalizing opened rest with
  | nil => exact hrest
  | register _ _ ih | begin _ _ _ ih | interrupt _ _ _ ih | note _ _ _ ih => exact ih opened hrest
  | attach _ s ih =>
    rw [List.append_assoc]
    exact ih opened (.attached s hrest)
  | @step _ lx es ω _ h k world _ _ ih act deliver =>
    rw [List.append_assoc]
    refine ih opened ?_
    unfold Lexer.stepEvents
    split
    next t n w lx' _ =>
      unfold Lexer.dispatchEvents
      split
      · exact hrest
      · simp only [List.cons_append, List.append_assoc]
        exact .dispatched t (Lexer.emitted_actionEvents h
          (fun a c lx world opened rest => act a c lx world opened)
          (fun handler t lx world opened rest => deliver handler t lx world opened) _ _ _ hrest)
    next p _ _ =>
      cases p with
      | done => exact .exhausted hrest
      | more | failed | broken => exact hrest

/-! ## All of a run -/

/-- The matches of the scan in progress tile its source so far, all of it if the scan came to its
end. -/
def TilesSoFar (es : List (Event α υ)) : Prop :=
  ∀ s seg, scanOf es = some (s, seg) →
    ∃ b, Tiles s.pending 0 (contexts seg) b ∧ (.exhausted ∈ seg → b = s.pending.length)

theorem Lexer.Placed.tilesSoFar {es : List (Event α υ)} {lx : Lexer α η} (h : lx.Placed es) :
    TilesSoFar es := by
  intro s seg hs
  unfold Lexer.Placed at h
  rw [hs] at h
  obtain ⟨w, hloc⟩ := h
  exact ⟨w.offset, hloc.tiles, hloc.exhausted⟩

theorem scanOf_since (pre : List (Event α υ)) (s : Source) {seg : List (Event α υ)}
    (h : ∀ e ∈ seg, e.attaches = false) : scanOf (pre ++ .attached s :: seg) = some (s, seg) := by
  rw [List.append_cons, scanOf_append h, scanOf_attached]
  rfl

/-- **No input is lost, repeated or mislocated.** Let `seg` be events between a call that attaches
the source `s` and the next such call, or the end of the run. The matches dispatched in `seg` follow
each other without a gap from the first rune of `s` on to a rune `b`; each has the text of its runes
and the line behind them. If the scan came to its end then, `b` is the end of `s`. If the run ends
with `seg`, then `b` is where the cursor stands. Tokens carry the match of the action that emitted
them. -/
theorem matches_tile_source {es : List (Event α υ)} {lx : Lexer α η} (run : Run {} es lx) :
    (∀ pre s seg post, es = pre ++ .attached s :: (seg ++ post) → (∀ e ∈ seg, e.attaches = false) →
      ∃ b, Tiles s.pending 0 (contexts seg) b ∧ b ≤ s.pending.length ∧
        (.exhausted ∈ seg → b = s.pending.length) ∧
        (post = [] → ∃ w, lx.window = some w ∧ w.offset = b ∧
          (lx.phase = .exhausted → b = s.pending.length))) ∧
      Emitted [] es := by
  have hnew : ({} : Lexer α η).Placed ([] : List (Event α υ)) := ⟨rfl, by rintro ⟨⟩⟩
  obtain ⟨hplaced, hpast⟩ := (Lexer.invariant_placed.always fun es (lx : Lexer α η) h =>
    h.tilesSoFar).of_run run ⟨hnew, fun past hp => by
      rw [List.prefix_nil.mp hp]
      exact hnew.tilesSoFar⟩
  refine ⟨fun pre s seg post hes hseg => ?_, ?_⟩
  · have hscan := scanOf_since pre s hseg
    cases post with
    | cons e post =>
      have hprefix : pre ++ .attached s :: seg <+: es := ⟨e :: post, by rw [hes]; simp⟩
      obtain ⟨b, htiles, hend⟩ := hpast _ hprefix s seg hscan
      exact ⟨b, htiles, htiles.le_length (Nat.zero_le _), hend, by rintro ⟨⟩⟩
    | nil =>
      rw [List.append_nil] at hes
      unfold Lexer.Placed at hplaced
      rw [List.nil_append, hes, hscan] at hplaced
      obtain ⟨w, hloc⟩ := hplaced
      exact ⟨w.offset, hloc.tiles, hloc.onto.offset_le, hloc.exhausted,
        fun _ => ⟨w, hloc.window, rfl, hloc.phase⟩⟩
  · have hemitted := run.emitted [] (.nil [])
    rwa [List.append_nil] at hemitted

/-- A host whose only action emits a token, after it has attached another source. -/
def reattaching : Host Unit Unit Unit Unit where
  act _ _ lx _ := ({ token := "A" }, lx.attachSource (.ofText "z"), ())
  deliver _ _ lx _ := (lx, ())

/-- What happens when it is called. -/
def reattachingChronicle : Chronicle Unit Unit Unit Unit where
  act _ _ _ _ := [.attached (.ofText "z")]
  deliver _ _ _ _ := []

/-- What is registered for it. -/
def reattachingSettings : List (Setting Unit Unit) :=
  [.token "A", .handler (some ()), .rule "a*\\n" (some ())]

/-- A lexer at the start of a source that the action does not let it finish. -/
def beforeReattaching : Lexer Unit Unit :=
  (Lexer.configured reattachingSettings).attachSource (.ofText "aa\nb")

/-- What happens in its first step. -/
def reattachingEvents : List (Event Unit Unit) :=
  beforeReattaching.stepEvents reattaching reattachingChronicle ()

set_option maxRecDepth 10000 in
theorem matches_tile_source_reattached :
    ((contexts (reattachingEvents.takeWhile (!·.attaches))).map fun c => (c.text, c.span, c.line)) =
        [(("aa\n" : Text), ⟨0, 3⟩, 2)] ∧
      (∃ b ≤ (Source.ofText "aa\nb").pending.length,
        Tiles (Source.ofText "aa\nb").pending 0
          (contexts (reattachingEvents.takeWhile (!·.attaches))) b) ∧
      Emitted [] ([.attached (.ofText "aa\nb")] ++ reattachingEvents) := by
  have run : Run (υ := Unit) {} ([] ++ [.attached (.ofText "aa\nb")]) beforeReattaching :=
    ((Run.nil {}).settings reattachingSettings).attach (.ofText "aa\nb")
  have hall := matches_tile_source (run.step reattaching reattachingChronicle ()
    (fun _ _ lx _ => (Run.nil lx).attach (.ofText "z")) (fun _ _ lx _ => .nil lx))
  refine ⟨by decide +kernel, ?_, hall.2⟩
  have hsplit : [.attached (.ofText "aa\nb")] ++ reattachingEvents =
      [] ++ .attached (.ofText "aa\nb") :: (reattachingEvents.takeWhile (!·.attaches) ++
        reattachingEvents.dropWhile (!·.attaches)) := by
    simp only [List.takeWhile_append_dropWhile, List.singleton_append, List.nil_append]
  have hseg : ∀ e ∈ reattachingEvents.takeWhile (!·.attaches), e.attaches = false := by
    intro e he
    simpa using List.mem_takeWhile_imp he
  exact (hall.1 _ _ _ _ hsplit hseg).imp fun b hb => ⟨hb.2.1, hb.1⟩

end Munch
