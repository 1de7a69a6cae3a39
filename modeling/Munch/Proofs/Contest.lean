import Mathlib.Data.List.TakeWhile
import Munch.Contest
import Munch.Proofs.Program.Reach
import Munch.Proofs.Window

/-!
# What a contest finds

`longestUpTo ps gaps rs n` is the longest match of the programs `ps` among the first `n` runes of
`rs`, said without a window and without queues: of the positions where some program accepts, the
last one, and there the first program.

Results:
* `longestUpTo_of_idle`: once no program waits for a rune, reading on changes nothing.
* `Machine.Racing.advance` and `Machine.Racing.best_eq`: how a race goes on, and what it knows when
  it stops.
* `Machine.run_spec`: a machine finds the longest match in the input that its window is over,
  however much of it was read and whatever is left in the queues.
* `RuneMatcher.Fresh.longest`: a matcher that is fresh finds that of the rules the table has now.
-/

namespace Munch

/-- The runes around the position behind `n` runes of `rs`, where `prev` comes before the first
one. -/
def gapAt (prev : Rune) (rs : List Rune) (n : Nat) : Gap :=
  ⟨(prev :: rs)[n]?.getD Rune.absent, rs[n]?.getD Rune.absent⟩

/-- The runes up to the first one that marks an end. -/
def usable (rs : List Rune) : List Rune := rs.takeWhile (· != Rune.absent)

namespace Program

/-- The threads behind `n` runes of `rs`. -/
def threadsAt (p : Program) (gaps : Nat → Gap) (rs : List Rune) : Nat → List Nat
  | 0 => p.begin (gaps 0)
  | n + 1 =>
    match rs[n]? with
    | some r => p.advance (p.threadsAt gaps rs n) r (gaps (n + 1))
    | none => []

/-- Does the program accept the first `n` runes of `rs`? -/
def acceptsAt (p : Program) (gaps : Nat → Gap) (rs : List Rune) (n : Nat) : Bool :=
  p.accepts (p.threadsAt gaps rs n)

end Program

/-- The longest match among the first `n` runes. -/
def longestUpTo (ps : List Program) (gaps : Nat → Gap) (rs : List Rune) : Nat → Option Hit
  | 0 => none
  | n + 1 => better (ps.findIdx? (·.acceptsAt gaps rs (n + 1))) (n + 1) (longestUpTo ps gaps rs n)

/-- The longest match of the programs of rules at a position: `prev` is the rune before it, and `rs`
are the runes from there on. -/
def longestOf {α : Type} (rules : List (Rule α)) (prev : Rune) (rs : List Rune) :
    Option (Rule α × Nat) :=
  (longestUpTo (rules.map (·.program)) (gapAt prev (usable rs)) (usable rs) (usable rs).length).bind
    fun h => rules[h.rule]?.map (·, h.length)

/-! ## Threads -/

namespace Program

variable {p : Program} {xs ys : List Nat}

/-- Only which places threads are at decides, not in which order. -/
theorem accepts_congr (h : ∀ a, a ∈ xs ↔ a ∈ ys) : p.accepts xs = p.accepts ys := by
  rw [Bool.eq_iff_iff]
  simp only [accepts, List.any_eq_true, h]

theorem waits_congr (h : ∀ a, a ∈ xs ↔ a ∈ ys) : p.waits xs = p.waits ys := by
  rw [Bool.eq_iff_iff]
  simp only [waits, List.any_eq_true, h]

theorem mem_advance {r : Rune} {g : Gap} {b : Nat} :
    b ∈ p.advance xs r g ↔ ∃ a ∈ xs, ∃ c, p.take r a = some c ∧ p.Leads g c b := by
  rw [advance, mem_reach]
  simp only [List.mem_filterMap]
  constructor
  · rintro ⟨c, ⟨a, ha, hc⟩, hb⟩
    exact ⟨a, ha, c, hc, hb⟩
  · rintro ⟨a, ha, c, hc, hb⟩
    exact ⟨c, ⟨a, ha, hc⟩, hb⟩

/-- A thread that takes a rune was waiting for one. -/
theorem advance_of_not_waits (h : p.waits xs = false) (r : Rune) (g : Gap) :
    p.advance xs r g = [] := by
  rw [List.eq_nil_iff_forall_not_mem]
  intro b hb
  obtain ⟨a, ha, c, hc, -⟩ := mem_advance.mp hb
  have hw := List.any_eq_false.mp h a ha
  unfold take at hc
  split at hc
  next heq => simp [heq] at hw
  · cases hc

theorem waits_nil : p.waits [] = false := rfl

/-- Without a thread that waits there are no threads further on. -/
theorem threadsAt_of_not_waits {gaps : Nat → Gap} {rs : List Rune} {n : Nat}
    (h : p.waits (p.threadsAt gaps rs n) = false) {m : Nat} (hm : n < m) :
    p.threadsAt gaps rs m = [] := by
  induction m, hm using Nat.le_induction with
  | base =>
    rw [threadsAt]
    split
    · exact advance_of_not_waits h _ _
    · rfl
  | succ m _ ih =>
    rw [threadsAt, ih]
    split
    · exact advance_of_not_waits waits_nil _ _
    · rfl

end Program

/-- Once no program waits for a rune, reading on changes nothing. -/
theorem longestUpTo_of_idle {ps : List Program} {gaps : Nat → Gap} {rs : List Rune} {n m : Nat}
    (h : ∀ p ∈ ps, p.waits (p.threadsAt gaps rs n) = false) (hm : n ≤ m) :
    longestUpTo ps gaps rs m = longestUpTo ps gaps rs n := by
  induction m, hm using Nat.le_induction with
  | base => rfl
  | succ m hm ih =>
    have hnone : ps.findIdx? (·.acceptsAt gaps rs (m + 1)) = none := by
      rw [List.findIdx?_eq_none_iff]
      intro p hp
      rw [Program.acceptsAt, Program.threadsAt_of_not_waits (h p hp) (Nat.lt_succ_of_le hm)]
      rfl
    rw [longestUpTo, hnone, better, ih]

/-- A match takes a rune at least, and none beyond those looked at. -/
theorem longestUpTo_length {ps : List Program} {gaps : Nat → Gap} {rs : List Rune} {n : Nat}
    {hit : Hit} (h : longestUpTo ps gaps rs n = some hit) : 0 < hit.length ∧ hit.length ≤ n := by
  induction n with
  | zero => cases h
  | succ n ih =>
    rw [longestUpTo] at h
    unfold better at h
    split at h
    · cases h
      exact ⟨Nat.succ_pos n, le_rfl⟩
    · exact ⟨(ih h).1, Nat.le_succ_of_le (ih h).2⟩

/-- The rule of a match is one of those that took part. -/
theorem longestUpTo_rule {ps : List Program} {gaps : Nat → Gap} {rs : List Rune} {n : Nat}
    {hit : Hit} (h : longestUpTo ps gaps rs n = some hit) : hit.rule < ps.length := by
  induction n with
  | zero => cases h
  | succ n ih =>
    rw [longestUpTo] at h
    unfold better at h
    split at h
    next winner hwinner =>
      cases h
      exact (List.findIdx?_eq_some_iff_findIdx_eq.mp hwinner).1
    · exact ih h

/-! ## Runes that mark an end -/

theorem usable_length_le (rs : List Rune) : (usable rs).length ≤ rs.length :=
  (List.takeWhile_prefix _).length_le

theorem ne_absent_of_mem_usable {rs : List Rune} {r : Rune} (h : r ∈ usable rs) :
    r ≠ Rune.absent := by
  simpa using List.mem_takeWhile_imp h

/-- Behind the usable runes there is nothing, or a rune that looks like it. -/
theorem usable_getD {rs : List Rune} {n : Nat} (h : n ≤ (usable rs).length) :
    (usable rs)[n]?.getD Rune.absent = rs[n]?.getD Rune.absent := by
  induction rs generalizing n with
  | nil => rfl
  | cons r rs ih =>
    unfold usable at h ⊢
    by_cases hr : r = Rune.absent
    · subst hr
      simp only [List.takeWhile_cons, bne_self_eq_false, Bool.false_eq_true, if_false] at h ⊢
      cases Nat.le_zero.mp h
      rfl
    · have hne : (r != Rune.absent) = true := by simpa using hr
      simp only [List.takeWhile_cons, hne, if_true] at h ⊢
      cases n with
      | zero => rfl
      | succ n => exact ih (Nat.le_of_succ_le_succ h)

/-! ## Machines -/

theorem findIdx?_congr {β : Type} {l : List β} {f f' : β → Bool} (h : ∀ a ∈ l, f a = f' a) :
    l.findIdx? f = l.findIdx? f' := by
  have hmap : (l.map f).findIdx? id = (l.map f').findIdx? id := by rw [List.map_congr_left h]
  simpa only [List.findIdx?_map, Function.id_comp] using hmap

namespace Machine

variable {α : Type}

/-- The tracks stand where the programs of their rules do behind `n` runes of `rs`. -/
def Stand (gaps : Nat → Gap) (rs : List Rune) (n : Nat) (tracks : List (Track α)) : Prop :=
  ∀ t ∈ tracks, ∀ a, a ∈ t.threads.dense.toList ↔ a ∈ t.rule.program.threadsAt gaps rs n

variable {gaps : Nat → Gap} {rs : List Rune} {n : Nat} {tracks : List (Track α)}

theorem stand_start (tracks : List (Track α)) :
    Stand gaps rs 0 (tracks.map (Track.start (gaps 0))) := by
  intro t ht a
  obtain ⟨t, -, rfl⟩ := List.mem_map.mp ht
  exact Program.mem_gather

theorem Stand.advance (h : Stand gaps rs n tracks) {r : Rune} (hr : rs[n]? = some r) :
    Stand gaps rs (n + 1) (tracks.map (Track.advance r (gaps (n + 1)))) := by
  intro t ht a
  obtain ⟨t, htm, rfl⟩ := List.mem_map.mp ht
  show a ∈ (t.rule.program.gather _ _ t.spare).dense.toList ↔
    a ∈ t.rule.program.threadsAt gaps rs (n + 1)
  rw [Program.mem_gather, Program.threadsAt, hr]
  show a ∈ t.rule.program.advance t.threads.dense.toList r _ ↔ _
  rw [Program.mem_advance, Program.mem_advance]
  simp only [h t htm]

theorem Stand.accepts (h : Stand gaps rs n tracks) {t : Track α} (ht : t ∈ tracks) :
    t.accepts = t.rule.program.acceptsAt gaps rs n := Program.accepts_congr (h t ht)

theorem Stand.waits (h : Stand gaps rs n tracks) {t : Track α} (ht : t ∈ tracks) :
    t.waits = t.rule.program.waits (t.rule.program.threadsAt gaps rs n) :=
      Program.waits_congr (h t ht)

/-- The first track that accepts is that of the first program that does. -/
theorem Stand.findIdx? (h : Stand gaps rs n tracks) :
    tracks.findIdx? Track.accepts =
      (tracks.map (·.rule.program)).findIdx? (·.acceptsAt gaps rs n) := by
  rw [List.findIdx?_map]
  exact findIdx?_congr fun t ht => h.accepts ht

/-- A run does not touch the rules of a machine. -/
theorem race_rules (fuel length : Nat) (best : Option Hit) (tracks : List (Track α)) (rune : Rune)
    (passed : List Rune) (w : Window) :
    (race fuel length best tracks rune passed w).2.2.rules = tracks.map (·.rule) := by
  induction fuel generalizing length best tracks rune passed w with
  | zero => rfl
  | succ fuel ih =>
    rw [race]
    split
    · rw [ih, List.map_map]
      rfl
    · rfl

theorem run_rules (m : Machine α) (w : Window) : (m.run w).2.2.rules = m.rules := by
  unfold run
  rw [race_rules, List.map_map]
  rfl

/-- What a race has come to when `length` runes are passed: the tracks stand behind them, the best
match among them is known, and the window stands at the rune `rune`. -/
structure Racing (prev : Rune) (rs : List Rune) (length : Nat) (best : Option Hit)
    (tracks : List (Track α)) (rune : Rune) (passed : List Rune) (w : Window) : Prop where
  length_le : length ≤ (usable rs).length
  stand : Stand (gapAt prev (usable rs)) (usable rs) length tracks
  best : best = longestUpTo (tracks.map (·.rule.program)) (gapAt prev (usable rs))
    (usable rs) length
  rune : rune = rs[length]?.getD Rune.absent
  passed : passed.length = length
  rest : w.ahead ++ w.unread = rs.drop length
  kept : length < rs.length → w.ahead ≠ []

namespace Racing

variable {prev rune : Rune} {length : Nat} {best : Option Hit} {passed : List Rune} {w : Window}

/-- A race that is not at an end stands at a usable rune. -/
theorem usable_rune (h : Racing prev rs length best tracks rune passed w)
    (hrune : rune ≠ Rune.absent) : (usable rs)[length]? = some rune := by
  have hd := usable_getD h.length_le
  rw [← h.rune] at hd
  cases hl : (usable rs)[length]? with
  | none =>
    rw [hl] at hd
    exact absurd hd.symm hrune
  | some r =>
    rw [hl] at hd
    exact congrArg some hd

theorem drop_eq (h : Racing prev rs length best tracks rune passed w) (hrune : rune ≠ Rune.absent) :
    rs.drop length = rune :: rs.drop (length + 1) := by
  cases hl : rs[length]? with
  | none => exact absurd (by rw [h.rune, hl]; rfl) hrune
  | some r =>
    obtain ⟨hlt, hr⟩ := List.getElem?_eq_some_iff.mp hl
    rw [List.drop_eq_getElem_cons hlt, hr, h.rune, hl]
    rfl

/-- The window keeps the rune that the race stands at. -/
theorem ahead (h : Racing prev rs length best tracks rune passed w) (hrune : rune ≠ Rune.absent) :
    ∃ rest, w.ahead = rune :: rest := by
  have hdrop := h.drop_eq hrune
  have hlt : length < rs.length := by
    by_contra hle
    rw [List.drop_eq_nil_of_le (not_lt.mp hle)] at hdrop
    cases hdrop
  obtain ⟨r, rest, hw⟩ := List.exists_cons_of_ne_nil (h.kept hlt)
  have hrest := h.rest
  rw [hw, hdrop, List.cons_append] at hrest
  exact ⟨rest, by rw [hw, (List.cons.inj hrest).1]⟩

/-- Passing a rune leads to the position behind it, and the race goes on from there. -/
theorem advance (h : Racing prev rs length best tracks rune passed w) (hrune : rune ≠ Rune.absent) :
    (⟨rune, w.advance.peek.1.getD Rune.absent⟩ : Gap) = gapAt prev (usable rs) (length + 1) ∧
      Racing prev rs (length + 1)
        (better ((tracks.map (Track.advance rune (gapAt prev (usable rs) (length + 1)))).findIdx?
          Track.accepts) (length + 1) best)
        (tracks.map (Track.advance rune (gapAt prev (usable rs) (length + 1))))
        (w.advance.peek.1.getD Rune.absent) (rune :: passed) w.advance.peek.2 := by
  have husable := h.usable_rune hrune
  have hul : length < (usable rs).length := (List.getElem?_eq_some_iff.mp husable).1
  obtain ⟨rest, hahead⟩ := h.ahead hrune
  have hadv : w.advance.ahead ++ w.advance.unread = rs.drop (length + 1) := by
    have hrest := h.rest
    rw [hahead, h.drop_eq hrune, List.cons_append] at hrest
    rw [← (List.cons.inj hrest).2]
    simp [Window.advance, hahead, Window.unread]
  have hpeek : w.advance.peek.1.getD Rune.absent = rs[length + 1]?.getD Rune.absent := by
    rw [Window.peek_eq, hadv, List.head?_drop]
  have hstand := h.stand.advance husable
  refine ⟨?_, hul, hstand, ?_, hpeek, congrArg (· + 1) h.passed, ?_, fun hlt hnil => ?_⟩
  · rw [hpeek, ← usable_getD hul, gapAt, List.getElem?_cons_succ, husable]
    rfl
  · rw [hstand.findIdx?, h.best, longestUpTo]
    simp only [List.map_map]
    rfl
  · rw [(Window.reads_peek w.advance).rest, hadv]
  · have hfst := Window.peek_fst w.advance
    rw [hnil, Window.peek_eq, hadv, List.head?_drop, List.getElem?_eq_getElem hlt] at hfst
    cases hfst

/-- A race that cannot go on knows the longest match: no program waits, or the usable runes are
passed. -/
theorem best_eq (h : Racing prev rs length best tracks rune passed w)
    (hstop : ¬(tracks.any Track.waits && rune != Rune.absent) = true) :
    best = longestUpTo (tracks.map (·.rule.program)) (gapAt prev (usable rs)) (usable rs)
      (usable rs).length := by
  rw [h.best]
  rw [Bool.and_eq_true, not_and_or, bne_iff_ne, not_not] at hstop
  obtain hidle | habsent := hstop
  · symm
    refine longestUpTo_of_idle (fun p hp => ?_) h.length_le
    obtain ⟨t, ht, rfl⟩ := List.mem_map.mp hp
    rw [← h.stand.waits ht]
    exact eq_false_of_ne_true fun hw => hidle (List.any_eq_true.mpr ⟨t, ht, hw⟩)
  · congr 1
    by_contra hne
    have hul : length < (usable rs).length := lt_of_le_of_ne h.length_le hne
    have hd := usable_getD h.length_le
    rw [← h.rune, habsent, List.getElem?_eq_getElem hul] at hd
    exact ne_absent_of_mem_usable (List.getElem_mem hul) hd

end Racing

/-- **A race finds the longest match.** The induction is on the fuel, which is enough for all the
runes that are left; the window is only ever read further. -/
theorem race_spec (prev : Rune) (rs : List Rune) (fuel length : Nat) (best : Option Hit)
    (tracks : List (Track α)) (rune : Rune) (passed : List Rune) (w : Window)
    (h : Racing prev rs length best tracks rune passed w) (hfuel : rs.length < fuel + length) :
    (race fuel length best tracks rune passed w).1 =
        longestUpTo (tracks.map (·.rule.program)) (gapAt prev (usable rs)) (usable rs)
          (usable rs).length ∧
      Window.Reads (w.rewind passed) (race fuel length best tracks rune passed w).2.1 ∧
      ∀ hit, (race fuel length best tracks rune passed w).1 = some hit →
        hit.length ≤ (race fuel length best tracks rune passed w).2.1.ahead.length := by
  induction fuel generalizing length best tracks rune passed w with
  | zero =>
    have := h.length_le
    have := usable_length_le rs
    omega
  | succ fuel ih =>
    rw [race]
    split
    next hgo =>
      rw [Bool.and_eq_true, bne_iff_ne] at hgo
      obtain ⟨rest, hahead⟩ := h.ahead hgo.2
      obtain ⟨hgap, hnext⟩ := h.advance hgo.2
      simp only [hgap]
      obtain ⟨h1, h2, h3⟩ := ih _ _ _ _ _ _ hnext (by omega)
      refine ⟨?_, (Window.reads_walk hahead passed).trans h2, h3⟩
      rw [h1]
      simp only [List.map_map]
      rfl
    next hstop =>
      refine ⟨h.best_eq hstop, .refl _, fun hit hhit => ?_⟩
      have hle := (longestUpTo_length (h.best.symm.trans hhit)).2
      rw [Window.rewind_eq, List.length_append, List.length_reverse, h.passed]
      omega

/-- **A machine finds the longest match in the input of its window**: what was read of it before,
and what is left in the queues, makes no difference. -/
theorem run_spec (m : Machine α) {w : Window} {R : List Rune} {stop : Stop} (h : w.Over R stop) :
    (m.run w).1 = longestUpTo (m.rules.map (·.program)) (gapAt w.prev (usable (R.drop w.offset)))
        (usable (R.drop w.offset)) (usable (R.drop w.offset)).length ∧
      Window.Reads w (m.run w).2.1 ∧
      ∀ hit, (m.run w).1 = some hit → hit.length ≤ (m.run w).2.1.ahead.length := by
  have hreads := Window.reads_peek w
  have hover := hreads.onto h
  have hrune : w.peek.1.getD Rune.absent = (R.drop w.offset)[0]?.getD Rune.absent := by
    rw [h.peek, List.head?_eq_getElem?]
  have hgap : (⟨w.prev, w.peek.1.getD Rune.absent⟩ : Gap) =
      gapAt w.prev (usable (R.drop w.offset)) 0 := by
    rw [hrune, ← usable_getD (Nat.zero_le _)]
    rfl
  unfold run
  simp only [hgap]
  have hrules :
      (m.tracks.map (Track.start (gapAt w.prev (usable (R.drop w.offset)) 0))).map (·.rule) =
        m.rules := by
    rw [List.map_map]
    rfl
  have hstart : Racing w.prev (R.drop w.offset) 0 none
      (m.tracks.map (Track.start (gapAt w.prev (usable (R.drop w.offset)) 0)))
      (w.peek.1.getD Rune.absent) [] w.peek.2 := by
    refine ⟨Nat.zero_le _, stand_start _, rfl, hrune, rfl, ?_, fun hlt => h.peek_ahead ?_⟩
    · rw [hreads.rest, h.rest, List.drop_zero]
    · rw [List.length_drop] at hlt
      omega
  obtain ⟨h1, h2, h3⟩ := race_spec _ _ (w.peek.2.total + 1) _ _ _ _ _ _ hstart (by
    rw [hover.total, List.length_drop]
    omega)
  refine ⟨?_, hreads.trans h2, h3⟩
  rw [h1, ← hrules]
  simp only [List.map_map]
  rfl

theorem rules_new (rules : List (Rule α)) : (new rules).rules = rules := by
  rw [new, Machine.rules, List.map_map]
  exact List.map_id rules

end Machine

/-! ## Matchers -/

/-- The machines of a matcher are for tables up to the one of now, and those that would be used are
for the rules that a state has now. -/
structure RuneMatcher.Fresh {α : Type} (m : RuneMatcher α) (t : RuleTable α) : Prop where
  version_le : ∀ v, m.version = some v → v ≤ t.version
  rules : m.version = some t.version →
    ∀ state machine, m.machines.lookup state = some machine → machine.rules = t.rulesFor state

namespace RuneMatcher

variable {α : Type} {m : RuneMatcher α} {t : RuleTable α}

theorem fresh_new (t : RuleTable α) : Fresh ({} : RuneMatcher α) t := by
  constructor
  · rintro v ⟨⟩
  · rintro ⟨⟩

theorem follow_version (m : RuneMatcher α) (t : RuleTable α) :
    (m.follow t).version = some t.version := by
  unfold follow
  split
  next h => exact h
  · rfl

/-- A machine that is still used when the table has been looked at is for the rules of now. -/
theorem Fresh.follow (h : m.Fresh t) {state : Text} {machine : Machine α}
    (hm : (m.follow t).machines.lookup state = some machine) :
    machine.rules = t.rulesFor state := by
  unfold RuneMatcher.follow at hm
  split at hm
  next hv => exact h.rules hv state machine hm
  · cases hm

theorem Fresh.machineFor_rules (h : m.Fresh t) (state : Text) :
    (m.machineFor t state).rules = t.rulesFor state := by
  unfold machineFor
  cases hm : (m.follow t).machines.lookup state with
  | none => exact Machine.rules_new _
  | some machine => exact h.follow hm

/-- A change of the table makes all machines outdated. -/
theorem Fresh.later (h : m.Fresh t) {t' : RuleTable α} (hv : t.version < t'.version) :
    m.Fresh t' := by
  refine ⟨fun v hm => (h.version_le v hm).trans hv.le, fun hm => ?_⟩
  exact absurd (h.version_le _ hm) (not_le.mpr hv)

/-- Looking for a match leaves a matcher fresh. -/
theorem Fresh.longest_snd (h : m.Fresh t) (state : Text) (w : Window) :
    (m.longest t state w).2.2.Fresh t := by
  refine ⟨fun v hv => ?_, fun _ s machine hs => ?_⟩
  · change (m.follow t).version = some v at hv
    rw [follow_version] at hv
    exact (Option.some.inj hv).ge
  · change
      (RuleTable.update state ((m.machineFor t state).run w).2.2 (m.follow t).machines).lookup s =
        some machine at hs
    rw [RuleTable.lookup_update] at hs
    split at hs
    next heq => rw [heq, ← Option.some.inj hs, Machine.run_rules, h.machineFor_rules]
    · exact h.follow hs

/-- **A matcher finds the longest match of the rules that the table has now.** -/
theorem Fresh.longest (h : m.Fresh t) (state : Text) {w : Window} {R : List Rune} {stop : Stop}
    (hw : w.Over R stop) :
    (m.longest t state w).1 = longestOf (t.rulesFor state) w.prev (R.drop w.offset) := by
  obtain ⟨h1, -⟩ := (m.machineFor t state).run_spec hw
  unfold RuneMatcher.longest longestOf
  simp only [h1, h.machineFor_rules state]

/-- The window that a matcher leaves was only read further, and keeps the match. -/
theorem longest_window (m : RuneMatcher α) (t : RuleTable α) (state : Text) {w : Window}
    {R : List Rune} {stop : Stop} (hw : w.Over R stop) :
    Window.Reads w (m.longest t state w).2.1 ∧ ∀ r n, (m.longest t state w).1 = some (r, n) →
      0 < n ∧ n ≤ (m.longest t state w).2.1.ahead.length := by
  obtain ⟨h1, h2, h3⟩ := (m.machineFor t state).run_spec hw
  refine ⟨h2, fun r n hr => ?_⟩
  obtain ⟨hit, hhit, hmap⟩ := Option.bind_eq_some_iff.mp hr
  obtain ⟨rule, -, heq⟩ := Option.map_eq_some_iff.mp hmap
  cases heq
  exact ⟨(longestUpTo_length (h1.symm.trans hhit)).1, h3 hit hhit⟩

end RuneMatcher

end Munch
