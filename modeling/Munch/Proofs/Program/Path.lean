import Munch.Proofs.Contest

/-!
# Paths of a program, and the longest match

What a program takes, said without threads, queues or windows.

* `Program.Path`: a path from the start of a program. It takes the runes of an input one after the
  other at instructions that test them, goes on at all the others without one, and passes a
  condition only where that is true of the runes around its position.
* `Program.Takes`: some path takes just the first `n` runes and ends where the program accepts.
* `Machine.Takes`: the rule number `i` does.
* `Machine.Longest`: a match than which no rule has a longer one, of the first rule that has one so
  long.

Results:
* `mem_threadsAt`: the threads behind `n` runes stand at the instructions that paths get to with
  these runes, each path with the conditions it met on its way.
* `longestUpTo_eq_some` and `longestUpTo_eq_none`: what the longest match is, and when there is
  none.
* **`Machine.run_finds_longest`**: whatever its queues were left with, a machine that runs over an
  input finds a match iff it is the longest one, and none iff no rule takes any rune.
-/

namespace Munch

/-! ## Paths -/

namespace Program

/-- A path through the runes `rs`, where `prev` comes before the first one, from the start to the
place `pc`, with the first `n` runes taken. -/
inductive Path (p : Program) (prev : Rune) (rs : List Rune) : (pc n : Nat) → Prop
  | start : Path p prev rs p.start 0
  | pass {pc n next : Nat} (h : Path p prev rs pc n) (hi : p.code[pc]? = some (.pass next)) :
      Path p prev rs next n
  | left {pc n left right : Nat} (h : Path p prev rs pc n)
      (hi : p.code[pc]? = some (.split left right)) : Path p prev rs left n
  | right {pc n left right : Nat} (h : Path p prev rs pc n)
      (hi : p.code[pc]? = some (.split left right)) : Path p prev rs right n
  | anchor {pc n next : Nat} {a : Anchor} (h : Path p prev rs pc n)
      (hi : p.code[pc]? = some (.anchor a next)) (ha : a.holds (gapAt prev rs n) = true) :
      Path p prev rs next n
  | step {pc n next : Nat} {test : RuneTest} {r : Rune} (h : Path p prev rs pc n)
      (hi : p.code[pc]? = some (.step test next)) (hr : rs[n]? = some r)
      (ht : test.accepts r = true) : Path p prev rs next (n + 1)

/-- The program takes the first `n` runes of `rs`. -/
def Takes (p : Program) (prev : Rune) (rs : List Rune) (n : Nat) : Prop :=
  ∃ pc, p.Path prev rs pc n ∧ p.code[pc]? = some .accept

variable {p : Program} {prev : Rune} {rs : List Rune} {a b n : Nat}

theorem Path.le_length (h : p.Path prev rs a n) : n ≤ rs.length := by
  induction h with
  | start => exact Nat.zero_le _
  | pass _ _ ih | left _ _ ih | right _ _ ih | anchor _ _ _ ih => exact ih
  | step _ _ hr _ _ => exact (List.getElem?_eq_some_iff.mp hr).1

/-- A path goes on with a move. -/
theorem Path.move (h : p.Path prev rs a n) (hab : p.Move (gapAt prev rs n) a b) :
    p.Path prev rs b n := by
  obtain ⟨inst, hi, hb⟩ := hab
  cases inst with
  | pass next =>
    obtain rfl := List.mem_singleton.mp hb
    exact h.pass hi
  | split left right =>
    obtain rfl | hb := List.mem_cons.mp hb
    · exact h.left hi
    · obtain rfl := List.mem_singleton.mp hb
      exact h.right hi
  | anchor c next =>
    simp only [moves] at hb
    by_cases hc : c.holds (gapAt prev rs n) = true
    · rw [if_pos hc] at hb
      obtain rfl := List.mem_singleton.mp hb
      exact h.anchor hi hc
    · rw [if_neg hc] at hb
      exact absurd hb List.not_mem_nil
  | step test next | accept | stuck => exact absurd hb List.not_mem_nil

theorem Path.leads (h : p.Path prev rs a n) (hab : p.Leads (gapAt prev rs n) a b) :
    p.Path prev rs b n := by
  obtain ⟨hmoves, -⟩ := hab
  induction hmoves with
  | refl => exact h
  | tail _ hmove ih => exact ih.move hmove

/-- A path goes on with a rune that a thread takes. -/
theorem Path.take {r : Rune} (h : p.Path prev rs a n) (hr : rs[n]? = some r)
    (hb : p.take r a = some b) : p.Path prev rs b (n + 1) := by
  unfold Program.take at hb
  split at hb
  next test next hi =>
    by_cases ht : test.accepts r = true
    · rw [if_pos ht] at hb
      cases hb
      exact h.step hi hr ht
    · rw [if_neg ht] at hb
      cases hb
  · cases hb

/-! ### Threads -/

/-- Where a thread can get to without a rune, there is a thread, too. -/
theorem threadsAt_leads {gaps : Nat → Gap} (h : a ∈ p.threadsAt gaps rs n)
    (hab : p.Leads (gaps n) a b) : b ∈ p.threadsAt gaps rs n := by
  cases n with
  | zero =>
    rw [threadsAt, begin, mem_reach] at h ⊢
    obtain ⟨s, hs, hsa⟩ := h
    exact ⟨s, hs, hsa.1.trans hab.1, hab.2⟩
  | succ n =>
    rw [threadsAt] at h ⊢
    split at h
    · obtain ⟨c, hc, d, hd, hda⟩ := mem_advance.mp h
      exact mem_advance.mpr ⟨c, hc, d, hd, hda.1.trans hab.1, hab.2⟩
    · exact absurd h List.not_mem_nil

theorem path_of_mem_threadsAt (h : b ∈ p.threadsAt (gapAt prev rs) rs n) : p.Path prev rs b n := by
  induction n generalizing b with
  | zero =>
    rw [threadsAt, begin, mem_reach] at h
    obtain ⟨s, hs, hsb⟩ := h
    obtain rfl := List.mem_singleton.mp hs
    exact Path.start.leads hsb
  | succ n ih =>
    rw [threadsAt] at h
    split at h
    next r hr =>
      obtain ⟨c, hc, d, hd, hdb⟩ := mem_advance.mp h
      exact ((ih hc).take hr hd).leads hdb
    · exact absurd h List.not_mem_nil

/-- A path ends at a thread, unless it has left the program. The induction is on the path: where it
makes a move, threads are closed under moves; where it takes a rune, all threads do so at the same
time. -/
theorem Path.mem_threadsAt (h : p.Path prev rs b n) (hb : b < p.code.size) :
    b ∈ p.threadsAt (gapAt prev rs) rs n := by
  have hmove {a b n : Nat} {inst : Inst} (hi : p.code[a]? = some inst) (hb : b < p.code.size)
      (hab : b ∈ moves (gapAt prev rs n) inst)
      (ih : a < p.code.size → a ∈ p.threadsAt (gapAt prev rs) rs n) :
      b ∈ p.threadsAt (gapAt prev rs) rs n :=
    threadsAt_leads (ih (Array.getElem?_eq_some_iff.mp hi).1) ⟨.single ⟨inst, hi, hab⟩, hb⟩
  induction h with
  | start =>
    rw [threadsAt, begin, mem_reach]
    exact ⟨_, List.mem_singleton_self _, .refl, hb⟩
  | pass _ hi ih => exact hmove hi hb (by simp [moves]) ih
  | left _ hi ih | right _ hi ih => exact hmove hi hb (by simp [moves]) ih
  | anchor _ hi ha ih => exact hmove hi hb (by simp [moves, ha]) ih
  | @step pc n next test r _ hi hr ht ih =>
    have hpc := ih (Array.getElem?_eq_some_iff.mp hi).1
    rw [threadsAt, hr]
    exact mem_advance.mpr ⟨pc, hpc, next, by simp [Program.take, hi, ht], .refl, hb⟩

/-- **The threads behind `n` runes** stand at the instructions that paths get to with these
runes. -/
theorem mem_threadsAt :
    b ∈ p.threadsAt (gapAt prev rs) rs n ↔ p.Path prev rs b n ∧ b < p.code.size := by
  constructor
  · intro h
    refine ⟨path_of_mem_threadsAt h, ?_⟩
    cases n with
    | zero =>
      rw [threadsAt, begin, mem_reach] at h
      obtain ⟨s, -, hsb⟩ := h
      exact hsb.2
    | succ n =>
      rw [threadsAt] at h
      split at h
      · obtain ⟨c, -, d, -, hdb⟩ := mem_advance.mp h
        exact hdb.2
      · exact absurd h List.not_mem_nil
  · rintro ⟨h, hb⟩
    exact h.mem_threadsAt hb

/-- A thread has accepted iff the program takes the runes so far. -/
theorem acceptsAt_iff_takes : p.acceptsAt (gapAt prev rs) rs n = true ↔ p.Takes prev rs n := by
  simp only [acceptsAt, accepts, List.any_eq_true, beq_iff_eq, mem_threadsAt]
  constructor
  · rintro ⟨pc, ⟨hpath, -⟩, hi⟩
    exact ⟨pc, hpath, hi⟩
  · rintro ⟨pc, hpath, hi⟩
    exact ⟨pc, ⟨hpath, (Array.getElem?_eq_some_iff.mp hi).1⟩, hi⟩

theorem Takes.le_length (h : p.Takes prev rs n) : n ≤ rs.length := by
  obtain ⟨pc, hpath, -⟩ := h
  exact hpath.le_length

end Program

/-! ## The longest match -/

section LongestUpTo

variable {ps : List Program} {gaps : Nat → Gap} {rs : List Rune} {i n N : Nat}

/-- There is no match iff no program accepts behind a rune. -/
theorem longestUpTo_eq_none : longestUpTo ps gaps rs N = none ↔
    ∀ k, 1 ≤ k → k ≤ N → ps.findIdx? (·.acceptsAt gaps rs k) = none := by
  induction N with
  | zero =>
    constructor
    · intro _ k h1 h2
      omega
    · intro _
      rfl
  | succ N ih =>
    rw [longestUpTo]
    cases hw : ps.findIdx? (·.acceptsAt gaps rs (N + 1)) with
    | none =>
      simp only [better, ih]
      constructor
      · intro h k h1 h2
        by_cases hk : k = N + 1
        · rw [hk, hw]
        · exact h k h1 (by omega)
      · intro h k h1 h2
        exact h k h1 (by omega)
    | some winner =>
      simp only [better, reduceCtorEq, false_iff, not_forall]
      exact ⟨N + 1, by omega, le_rfl, by rw [hw]; simp⟩

/-- A match is the longest iff its program is the first to accept there and none does further on. -/
theorem longestUpTo_eq_some : longestUpTo ps gaps rs N = some ⟨i, n⟩ ↔
    1 ≤ n ∧ n ≤ N ∧ ps.findIdx? (·.acceptsAt gaps rs n) = some i ∧
      ∀ k, n < k → k ≤ N → ps.findIdx? (·.acceptsAt gaps rs k) = none := by
  induction N with
  | zero =>
    constructor
    · rintro ⟨⟩
    · rintro ⟨h1, h2, -⟩
      omega
  | succ N ih =>
    rw [longestUpTo]
    cases hw : ps.findIdx? (·.acceptsAt gaps rs (N + 1)) with
    | none =>
      simp only [better, ih]
      constructor
      · rintro ⟨h1, h2, h3, h4⟩
        refine ⟨h1, by omega, h3, fun k hk hkN => ?_⟩
        by_cases hk' : k = N + 1
        · rw [hk', hw]
        · exact h4 k hk (by omega)
      · rintro ⟨h1, h2, h3, h4⟩
        have hn : n ≠ N + 1 := by
          rintro rfl
          cases hw.symm.trans h3
        exact ⟨h1, by omega, h3, fun k hk hkN => h4 k hk (by omega)⟩
    | some winner =>
      simp only [better, Option.some.injEq, Hit.mk.injEq]
      constructor
      · rintro ⟨rfl, rfl⟩
        exact ⟨by omega, le_rfl, hw, fun k hk hkN => absurd hkN (by omega)⟩
      · rintro ⟨h1, h2, h3, h4⟩
        have hn : n = N + 1 := by
          by_contra hne
          cases hw.symm.trans (h4 (N + 1) (by omega) le_rfl)
        subst hn
        exact ⟨Option.some.inj (hw.symm.trans h3), rfl⟩

end LongestUpTo

/-! ## Machines -/

namespace Machine

variable {α : Type} {m : Machine α} {prev : Rune} {rs : List Rune} {i n : Nat}

/-- The rule number `i` takes the first `n` runes of `rs`. -/
def Takes (m : Machine α) (prev : Rune) (rs : List Rune) (i n : Nat) : Prop :=
  ∃ r, m.rules[i]? = some r ∧ r.program.Takes prev rs n

/-- Some rune is matched, no rule takes more runes, and no earlier rule takes as many. -/
structure Longest (m : Machine α) (prev : Rune) (rs : List Rune) (hit : Hit) : Prop where
  positive : 1 ≤ hit.length
  takes : m.Takes prev rs hit.rule hit.length
  first : ∀ j < hit.rule, ¬ m.Takes prev rs j hit.length
  longest : ∀ j k, hit.length < k → ¬ m.Takes prev rs j k

theorem Takes.le_length (h : m.Takes prev rs i n) : n ≤ rs.length := by
  obtain ⟨r, -, hr⟩ := h
  exact hr.le_length

/-- The rule number `i` takes the runes iff its program has accepted. -/
theorem takes_iff : m.Takes prev rs i n ↔ ∃ h : i < (m.rules.map Rule.program).length,
    (m.rules.map Rule.program)[i].acceptsAt (gapAt prev rs) rs n = true := by
  simp only [Program.acceptsAt_iff_takes, List.length_map, List.getElem_map]
  constructor
  · rintro ⟨r, hr, htakes⟩
    obtain ⟨hi, rfl⟩ := List.getElem?_eq_some_iff.mp hr
    exact ⟨hi, htakes⟩
  · rintro ⟨hi, htakes⟩
    exact ⟨_, List.getElem?_eq_getElem hi, htakes⟩

/-- The first program to accept is that of the first rule that takes the runes. -/
theorem findIdx?_eq_some :
    (m.rules.map Rule.program).findIdx? (·.acceptsAt (gapAt prev rs) rs n) = some i ↔
    m.Takes prev rs i n ∧ ∀ j < i, ¬ m.Takes prev rs j n := by
  rw [List.findIdx?_eq_some_iff_getElem]
  simp only [takes_iff]
  constructor
  · rintro ⟨hi, haccepts, hfirst⟩
    refine ⟨⟨hi, haccepts⟩, ?_⟩
    rintro j hj ⟨hlt, haccepts'⟩
    exact hfirst j hj haccepts'
  · rintro ⟨⟨hi, haccepts⟩, hfirst⟩
    exact ⟨hi, haccepts, fun j hj haccepts' => hfirst j hj ⟨hj.trans hi, haccepts'⟩⟩

theorem findIdx?_eq_none :
    (m.rules.map Rule.program).findIdx? (·.acceptsAt (gapAt prev rs) rs n) = none ↔
    ∀ i, ¬ m.Takes prev rs i n := by
  rw [List.findIdx?_eq_none_iff]
  simp only [takes_iff, List.forall_mem_iff_forall_getElem]
  constructor
  · rintro h i ⟨hi, haccepts⟩
    rw [h i hi] at haccepts
    cases haccepts
  · intro h i hi
    exact eq_false_of_ne_true fun haccepts => h i ⟨hi, haccepts⟩

theorem usable_of_forall (h : ∀ r ∈ rs, r ≠ Rune.absent) : usable rs = rs :=
  List.takeWhile_eq_self_iff.mpr fun r hr => by simpa using h r hr

/-- **A machine finds the longest match**, of the first rule that has it, and no match iff there is
none: for all programs, whatever rune was before the cursor, however much of the input was read
before, and whatever the runs before left in the queues. -/
theorem run_finds_longest (m : Machine α) {w : Window} {R : List Rune} {stop : Stop}
    (hw : w.Over R stop) (hreal : ∀ r ∈ R.drop w.offset, r ≠ Rune.absent) :
    (∀ hit, (m.run w).1 = some hit ↔ m.Longest w.prev (R.drop w.offset) hit) ∧
      ((m.run w).1 = none ↔ ∀ i n, 1 ≤ n → ¬ m.Takes w.prev (R.drop w.offset) i n) := by
  obtain ⟨hrun, -⟩ := m.run_spec hw
  rw [usable_of_forall hreal] at hrun
  rw [hrun]
  constructor
  · rintro ⟨i, n⟩
    rw [longestUpTo_eq_some, findIdx?_eq_some]
    constructor
    · rintro ⟨hn, -, ⟨htakes, hfirst⟩, hlonger⟩
      refine ⟨hn, htakes, hfirst, fun j k hk hj => ?_⟩
      exact findIdx?_eq_none.mp (hlonger k hk hj.le_length) j hj
    · rintro ⟨hn, htakes, hfirst, hlonger⟩
      refine ⟨hn, htakes.le_length, ⟨htakes, hfirst⟩, fun k hk _ => ?_⟩
      exact findIdx?_eq_none.mpr fun j => hlonger j k hk
  · rw [longestUpTo_eq_none]
    constructor
    · intro h i n hn htakes
      exact findIdx?_eq_none.mp (h n hn htakes.le_length) i htakes
    · intro h k hk _
      exact findIdx?_eq_none.mpr fun i => h i k hk

/-- The keyword `if` with no letter behind it, and words of small letters. -/
def keywordAndWord : List (Rule Unit) :=
  let keyword : Regex := .seq (.step (.among (.single 105)))
    (.seq (.step (.among (.single 102))) (.anchor .wordEdge))
  let word : Regex := .plus (.step (.among (.range 97 122)))
  [⟨"if\\b", "if\\b", none, keyword.program⟩, ⟨"[a-z]+", "[a-z]+", none, word.program⟩]

/-- Behind the keyword in `if iffy`, with all of the text read. -/
def behindKeyword : Window := ((Window.ofSource (.ofText "if iffy")).drain.consume 3).2

theorem run_finds_longest_word :
    (∀ r ∈ (Source.ofText "if iffy").pending.drop behindKeyword.offset, r ≠ Rune.absent) ∧
      ((new keywordAndWord).run behindKeyword).1 = some ⟨1, 4⟩ ∧
      (new keywordAndWord).Longest 32 (Text.runes "iffy") ⟨1, 4⟩ := by
  have hover : behindKeyword.Over (Source.ofText "if iffy").pending .ended :=
    ((Window.reads_drain _).onto (Window.over_ofSource _)).consume (by decide +kernel)
  have hreal : ∀ r ∈ (Source.ofText "if iffy").pending.drop behindKeyword.offset, r ≠
      Rune.absent := by
    decide +kernel
  obtain ⟨hfinds, -⟩ := run_finds_longest (new keywordAndWord) hover hreal
  have hfound : ((new keywordAndWord).run behindKeyword).1 = some ⟨1, 4⟩ := by decide +kernel
  exact ⟨hreal, hfound, (hfinds ⟨1, 4⟩).mp hfound⟩

end Machine

end Munch
