import Mathlib.Computability.Language
import Munch.Proofs.Contest

/-!
# The language of a program

`Regex.lang` is the set of the words that a regular expression matches. It says nothing of
conditions on a position, so it is used for expressions without them (`Regex.Free`).

Results:
* `Regex.emit_sound` and `Regex.emit_complete`: from the place where the instructions of an
  expression are entered, those words are accepted that start with a word of the expression and go
  on with one that is accepted from the place the instructions lead to.
* **`Regex.program_accepts`**: the program of an expression accepts just its words.
-/

namespace Munch

open Computability

namespace Regex

/-- Has the expression no conditions on positions? -/
def Free : Regex → Prop
  | .empty => True
  | .step _ => True
  | .anchor _ => False
  | .seq first second => first.Free ∧ second.Free
  | .alt left right => left.Free ∧ right.Free
  | .plus body => body.Free

/-- The words that an expression without conditions matches. -/
def lang : Regex → Language Rune
  | .empty => 1
  | .step test => {w | ∃ r, test.accepts r = true ∧ w = [r]}
  | .anchor _ => 0
  | .seq first second => first.lang * second.lang
  | .alt left right => left.lang + right.lang
  | .plus body => body.lang * body.lang∗

theorem mem_lang_plus_of_mem {body : Regex} {w : List Rune} (h : w ∈ body.lang) :
    w ∈ (Regex.plus body).lang := by
  rw [lang, ← List.append_nil w]
  exact Language.append_mem_mul h (Language.nil_mem_kstar _)

theorem mem_lang_plus_append {body : Regex} {v w : List Rune} (hv : v ∈ body.lang)
    (hw : w ∈ (Regex.plus body).lang) : v ++ w ∈ (Regex.plus body).lang := by
  rw [lang] at hw ⊢
  refine Language.append_mem_mul hv ?_
  rw [← Language.one_add_self_mul_kstar_eq_kstar]
  exact .inr hw

@[simp] theorem lang_option (body : Regex) : (option body).lang = body.lang + 1 := rfl

@[simp] theorem lang_star (body : Regex) : (star body).lang = body.lang∗ := by
  rw [star, lang_option, lang, add_comm, Language.one_add_self_mul_kstar_eq_kstar]

end Regex

/-! ## Words accepted from a place -/

/-- From the place `a` the word is accepted with `k` moves. -/
inductive Accepting (code : Array Inst) : (k a : Nat) → List Rune → Prop
  | accept {a : Nat} (h : code[a]? = some .accept) : Accepting code 0 a []
  | step {k a next : Nat} {test : RuneTest} {r : Rune} {w : List Rune}
      (h : code[a]? = some (.step test next)) (hr : test.accepts r = true)
      (hw : Accepting code k next w) : Accepting code (k + 1) a (r :: w)
  | pass {k a next : Nat} {w : List Rune} (h : code[a]? = some (.pass next))
      (hw : Accepting code k next w) : Accepting code (k + 1) a w
  | left {k a l r : Nat} {w : List Rune} (h : code[a]? = some (.split l r))
      (hw : Accepting code k l w) : Accepting code (k + 1) a w
  | right {k a l r : Nat} {w : List Rune} (h : code[a]? = some (.split l r))
      (hw : Accepting code k r w) : Accepting code (k + 1) a w

namespace Accepting

variable {code : Array Inst} {k a : Nat} {w : List Rune}

theorem of_step {test : RuneTest} {next : Nat} (h : code[a]? = some (.step test next))
    (hw : Accepting code k a w) :
    ∃ k' r v, k = k' + 1 ∧ w = r :: v ∧ test.accepts r = true ∧ Accepting code k' next v := by
  cases hw with
  | accept h' => cases h.symm.trans h'
  | step h' hr hv =>
    cases h.symm.trans h'
    exact ⟨_, _, _, rfl, rfl, hr, hv⟩
  | pass h' _ | left h' _ | right h' _ => cases h.symm.trans h'

theorem of_pass {next : Nat} (h : code[a]? = some (.pass next)) (hw : Accepting code k a w) :
    ∃ k', k = k' + 1 ∧ Accepting code k' next w := by
  cases hw with
  | pass h' hw =>
    cases h.symm.trans h'
    exact ⟨_, rfl, hw⟩
  | accept h' | step h' _ _ | left h' _ | right h' _ => cases h.symm.trans h'

theorem of_split {l r : Nat} (h : code[a]? = some (.split l r)) (hw : Accepting code k a w) :
    ∃ k', k = k' + 1 ∧ (Accepting code k' l w ∨ Accepting code k' r w) := by
  cases hw with
  | accept h' => cases h.symm.trans h'
  | step h' _ _ | pass h' _ => cases h.symm.trans h'
  | left h' hw =>
    cases h.symm.trans h'
    exact ⟨_, rfl, .inl hw⟩
  | right h' hw =>
    cases h.symm.trans h'
    exact ⟨_, rfl, .inr hw⟩

end Accepting

namespace Regex

/-- The program `code` has the instructions of `code'` from the place `start` on. -/
def Holds (code code' : Array Inst) (start : Nat) : Prop :=
  ∀ i, start ≤ i → i < code'.size → code[i]? = code'[i]?

theorem emit_size (r : Regex) (next : Nat) (code : Array Inst) :
    code.size ≤ (r.emit next code).2.size := by
  induction r generalizing next code with
  | empty | step test | anchor a => simp [emit]
  | seq first second ihf ihs => exact (ihs next code).trans (ihf _ _)
  | alt left right ihl ihr =>
    refine ((ihl next code).trans (ihr next _)).trans ?_
    simp [emit]
  | plus body ih =>
    have := ih code.size (code.push .stuck)
    simp only [emit, Array.size_setIfInBounds]
    rw [Array.size_push] at this
    omega

/-- Emitting instructions does not touch those that are there. -/
theorem emit_getElem? (r : Regex) (next : Nat) (code : Array Inst) {i : Nat} (hi : i < code.size) :
    (r.emit next code).2[i]? = code[i]? := by
  induction r generalizing next code with
  | empty | step test | anchor a => simp only [emit, Array.getElem?_push, if_neg (Nat.ne_of_lt hi)]
  | seq first second ihf ihs =>
    simp only [emit]
    rw [ihf _ _ (hi.trans_le (emit_size second next code)), ihs _ _ hi]
  | alt left right ihl ihr =>
    have hl := hi.trans_le (emit_size left next code)
    have hr := hl.trans_le (emit_size right next _)
    simp only [emit, Array.getElem?_push, if_neg (Nat.ne_of_lt hr)]
    rw [ihr _ _ hl, ihl _ _ hi]
  | plus body ih =>
    simp only [emit, Array.getElem?_setIfInBounds]
    rw [if_neg (Nat.ne_of_gt hi), ih _ _ (by rw [Array.size_push]; omega), Array.getElem?_push,
      if_neg (Nat.ne_of_lt hi)]

section Emit

variable {next : Nat} {code P : Array Inst}

theorem Holds.second {first second : Regex}
    (h : Holds P ((Regex.seq first second).emit next code).2 code.size) :
    Holds P (second.emit next code).2 code.size := by
  intro i hi hlt
  rw [h i hi (hlt.trans_le (emit_size first _ _))]
  exact emit_getElem? first _ _ hlt

theorem Holds.first {first second : Regex}
    (h : Holds P ((Regex.seq first second).emit next code).2 code.size) :
    Holds P (first.emit (second.emit next code).1 (second.emit next code).2).2
      (second.emit next code).2.size :=
  fun i hi hlt => h i ((emit_size second next code).trans hi) hlt

theorem Holds.left {left right : Regex}
    (h : Holds P ((Regex.alt left right).emit next code).2 code.size) :
    Holds P (left.emit next code).2 code.size := by
  intro i hi hlt
  have hlt' := hlt.trans_le (emit_size right next (left.emit next code).2)
  rw [h i hi (by simp only [emit, Array.size_push]; omega)]
  simp only [emit, Array.getElem?_push, if_neg (Nat.ne_of_lt hlt')]
  exact emit_getElem? right _ _ hlt

theorem Holds.right {left right : Regex}
    (h : Holds P ((Regex.alt left right).emit next code).2 code.size) :
    Holds P (right.emit next (left.emit next code).2).2 (left.emit next code).2.size := by
  intro i hi hlt
  rw [h i ((emit_size left next code).trans hi) (by simp only [emit, Array.size_push]; omega)]
  simp only [emit, Array.getElem?_push, if_neg (Nat.ne_of_lt hlt)]

/-- Nothing is entered at an instruction that only leads on. -/
theorem Holds.pass (h : Holds P (Regex.empty.emit next code).2 code.size) :
    P[code.size]? = some (.pass next) := by
  rw [h _ (Nat.le_refl _) (by simp [emit])]
  simp [emit]

/-- A choice is entered at its split. -/
theorem Holds.split {left right : Regex}
    (h : Holds P ((Regex.alt left right).emit next code).2 code.size) :
    P[((Regex.alt left right).emit next code).1]? =
      some (.split (left.emit next code).1 (right.emit next (left.emit next code).2).1) := by
  have hle := (emit_size left next code).trans (emit_size right next (left.emit next code).2)
  show P[(right.emit next (left.emit next code).2).2.size]? = _
  rw [h _ hle (by simp [emit])]
  simp [emit]

theorem Holds.body {body : Regex} (h : Holds P ((Regex.plus body).emit next code).2 code.size) :
    Holds P (body.emit code.size (code.push .stuck)).2 (code.push .stuck).size := by
  intro i hi hlt
  rw [Array.size_push] at hi
  rw [h i (by omega) (by simpa only [emit, Array.size_setIfInBounds] using hlt)]
  simp only [emit, Array.getElem?_setIfInBounds]
  rw [if_neg (by omega)]

/-- A loop goes back to its start or leaves, at the place its body leads to. -/
theorem Holds.loop {body : Regex} (h : Holds P ((Regex.plus body).emit next code).2 code.size) :
    P[code.size]? = some (.split ((Regex.plus body).emit next code).1 next) := by
  have hlt : code.size < (body.emit code.size (code.push .stuck)).2.size := by
    have := emit_size body code.size (code.push .stuck)
    rw [Array.size_push] at this
    omega
  rw [h _ (Nat.le_refl _) (by simpa only [emit, Array.size_setIfInBounds] using hlt)]
  simp only [emit, Array.getElem?_setIfInBounds, if_pos, if_pos hlt]

/-- **What is accepted from the entry** starts with a word of the expression, and the rest is
accepted from the place that the instructions lead to, with no more moves. -/
theorem emit_sound {r : Regex} (hfree : r.Free) (h : Holds P (r.emit next code).2 code.size)
    {k : Nat} {u : List Rune} (hu : Accepting P k (r.emit next code).1 u) :
    ∃ v w k', u = v ++ w ∧ k' ≤ k ∧ v ∈ r.lang ∧ Accepting P k' next w := by
  induction r generalizing next code k u with
  | empty =>
    obtain ⟨k', rfl, hw⟩ := hu.of_pass h.pass
    exact ⟨[], u, k', rfl, Nat.le_succ k', rfl, hw⟩
  | step test =>
    obtain ⟨k', r, w, rfl, rfl, hr, hw⟩ :=
      hu.of_step (show P[code.size]? = some (.step test next) by
      rw [h _ (Nat.le_refl _) (by simp [emit])]
      simp [emit])
    exact ⟨[r], w, k', rfl, Nat.le_succ k', ⟨r, hr, rfl⟩, hw⟩
  | anchor a => exact hfree.elim
  | seq first second ihf ihs =>
    obtain ⟨v, w, k', rfl, hk, hv, hw⟩ := ihf hfree.1 h.first hu
    obtain ⟨v', w', k'', rfl, hk', hv', hw'⟩ := ihs hfree.2 h.second hw
    exact ⟨v ++ v', w', k'', (List.append_assoc v v' w').symm, hk'.trans hk,
      Language.append_mem_mul hv hv', hw'⟩
  | alt left right ihl ihr =>
    obtain ⟨k', rfl, hu | hu⟩ := hu.of_split h.split
    · obtain ⟨v, w, k'', rfl, hk, hv, hw⟩ := ihl hfree.1 h.left hu
      exact ⟨v, w, k'', rfl, Nat.le_succ_of_le hk, .inl hv, hw⟩
    · obtain ⟨v, w, k'', rfl, hk, hv, hw⟩ := ihr hfree.2 h.right hu
      exact ⟨v, w, k'', rfl, Nat.le_succ_of_le hk, .inr hv, hw⟩
  | plus body ih =>
    -- each time around the loop takes a move, also if the body takes no rune
    induction k using Nat.strong_induction_on generalizing u with
    | h k ihk =>
      obtain ⟨v, w, k', rfl, hk, hv, hw⟩ := ih hfree h.body hu
      obtain ⟨k'', rfl, hw | hw⟩ := hw.of_split h.loop
      · obtain ⟨v', w', k₃, rfl, hk', hv', hw'⟩ := ihk k'' (by omega) hw
        exact ⟨v ++ v', w', k₃, (List.append_assoc v v' w').symm, by omega,
          mem_lang_plus_append hv hv', hw'⟩
      · exact ⟨v, w, k'', rfl, by omega, mem_lang_plus_of_mem hv, hw⟩

/-- **A word of the expression** leads from the entry to the place behind the instructions. -/
theorem emit_complete {r : Regex} (h : Holds P (r.emit next code).2 code.size) {v w : List Rune}
    (hv : v ∈ r.lang) {k : Nat} (hw : Accepting P k next w) :
    ∃ k', Accepting P k' (r.emit next code).1 (v ++ w) := by
  induction r generalizing next code v w k with
  | empty =>
    cases hv
    exact ⟨k + 1, .pass h.pass hw⟩
  | step test =>
    obtain ⟨r, hr, rfl⟩ := hv
    refine ⟨k + 1, .step ?_ hr hw⟩
    show P[code.size]? = some (.step test next)
    rw [h _ (Nat.le_refl _) (by simp [emit])]
    simp [emit]
  | anchor a => exact hv.elim
  | seq first second ihf ihs =>
    obtain ⟨v₁, hv₁, v₂, hv₂, rfl⟩ := Language.mem_mul.mp hv
    obtain ⟨k', hw'⟩ := ihs h.second hv₂ hw
    obtain ⟨k'', hw''⟩ := ihf h.first hv₁ hw'
    exact ⟨k'', by rwa [List.append_assoc]⟩
  | alt left right ihl ihr =>
    obtain hv | hv := hv
    · obtain ⟨k', hw'⟩ := ihl h.left hv hw
      exact ⟨_, .left h.split hw'⟩
    · obtain ⟨k', hw'⟩ := ihr h.right hv hw
      exact ⟨_, .right h.split hw'⟩
  | plus body ih =>
    obtain ⟨v₁, hv₁, v₂, hv₂, rfl⟩ := Language.mem_mul.mp hv
    obtain ⟨vs, rfl, hvs⟩ := Language.mem_kstar.mp hv₂
    -- from the end on: each further word comes with one more time around the loop
    have hloop : ∃ k', Accepting P k' code.size (vs.flatten ++ w) := by
      clear hv hv₂
      induction vs with
      | nil => exact ⟨_, .right h.loop hw⟩
      | cons u vs ihvs =>
        obtain ⟨k', hk'⟩ := ihvs fun y hy => hvs y (List.mem_cons_of_mem _ hy)
        obtain ⟨k'', hk''⟩ := ih h.body (hvs u List.mem_cons_self) hk'
        refine ⟨k'' + 1, .left h.loop ?_⟩
        rwa [List.flatten_cons, List.append_assoc]
    obtain ⟨k', hk'⟩ := hloop
    rw [List.append_assoc]
    exact ih h.body hv₁ hk'

end Emit

/-- Instructions without conditions on positions. -/
def Unconditional (code : Array Inst) : Prop :=
  ∀ (i : Nat) (a : Anchor) (next : Nat), code[i]? ≠ some (.anchor a next)

theorem emit_unconditional {r : Regex} (hfree : r.Free) (next : Nat) {code : Array Inst}
    (h : Unconditional code) : Unconditional (r.emit next code).2 := by
  have hpush {code : Array Inst} (h : Unconditional code) {inst : Inst}
      (hinst : ∀ a n, inst ≠ .anchor a n) : Unconditional (code.push inst) := by
    intro i a n hi
    rw [Array.getElem?_push] at hi
    split at hi
    · exact hinst a n (Option.some.inj hi)
    · exact h i a n hi
  induction r generalizing next code with
  | empty | step test => exact hpush h (by rintro a n ⟨⟩)
  | anchor a => exact hfree.elim
  | seq first second ihf ihs => exact ihf hfree.1 _ (ihs hfree.2 next h)
  | alt left right ihl ihr => exact hpush (ihr hfree.2 next (ihl hfree.1 next h)) (by rintro a n ⟨⟩)
  | plus body ih =>
    have hbody := ih hfree code.size (hpush h (by rintro a n ⟨⟩) : Unconditional (code.push .stuck))
    intro i a n hi
    simp only [emit, Array.getElem?_setIfInBounds] at hi
    split at hi
    · split at hi
      · cases hi
      · cases hi
    · exact hbody i a n hi

end Regex

/-! ## Words and threads -/

namespace Program

variable {p : Program} {gaps : Nat → Gap} {rs : List Rune}

/-- Threads that are where they can get to without a rune. -/
theorem threadsAt_closed {n a b : Nat} {g : Gap} (h : a ∈ p.threadsAt gaps rs n)
    (hp : Regex.Unconditional p.code) (hab : p.Leads g a b) : b ∈ p.threadsAt gaps rs n := by
  -- without conditions all positions are alike
  have hgap (g' : Gap) : p.Leads g' a b := by
    refine ⟨Relation.ReflTransGen.mono ?_ a b hab.1, hab.2⟩
    rintro c d ⟨inst, hinst, hd⟩
    refine ⟨inst, hinst, ?_⟩
    cases inst with
    | anchor a next => exact absurd hinst (hp c a next)
    | step _ _ | pass _ | split _ _ | accept | stuck => exact hd
  cases n with
  | zero =>
    rw [threadsAt, begin, mem_reach] at h ⊢
    obtain ⟨s, hs, hsa⟩ := h
    exact ⟨s, hs, hsa.1.trans (hgap _).1, hab.2⟩
  | succ n =>
    rw [threadsAt] at h ⊢
    split at h
    next r hr =>
      obtain ⟨c, hc, d, hd, hda⟩ := mem_advance.mp h
      exact mem_advance.mpr ⟨c, hc, d, hd, hda.1.trans (hgap _).1, hab.2⟩
    · cases h

/-- From some thread the word is accepted. -/
def Accepted (p : Program) (threads : List Nat) (w : List Rune) : Prop :=
  ∃ a ∈ threads, ∃ k, Accepting p.code k a w

/-- The empty word is accepted from threads that have accepted. -/
theorem accepted_nil (hp : Regex.Unconditional p.code) (n : Nat) :
    p.Accepted (p.threadsAt gaps rs n) [] ↔ p.acceptsAt gaps rs n = true := by
  constructor
  · rintro ⟨a, ha, k, hk⟩
    obtain ⟨b, hb, hab⟩ : ∃ b, p.code[b]? = some .accept ∧ p.Leads ⟨0, 0⟩ a b := by
      clear ha
      generalize hw : ([] : List Rune) = w at hk
      induction hk with
      | accept h => exact ⟨_, h, .refl, (Array.getElem?_eq_some_iff.mp h).1⟩
      | step _ _ _ => cases hw
      | @pass k a next w h _ ih =>
        obtain ⟨b, hb, hpath, hlt⟩ := ih hw
        exact ⟨b, hb, .head ⟨_, h, by simp [moves]⟩ hpath, hlt⟩
      | @left k a l r w h _ ih =>
        obtain ⟨b, hb, hpath, hlt⟩ := ih hw
        exact ⟨b, hb, .head ⟨_, h, by simp [moves]⟩ hpath, hlt⟩
      | @right k a l r w h _ ih =>
        obtain ⟨b, hb, hpath, hlt⟩ := ih hw
        exact ⟨b, hb, .head ⟨_, h, by simp [moves]⟩ hpath, hlt⟩
    exact List.any_eq_true.mpr ⟨b, threadsAt_closed ha hp hab, by rw [hb]; rfl⟩
  · intro h
    obtain ⟨b, hb, haccept⟩ := List.any_eq_true.mp h
    exact ⟨b, hb, 0, .accept (by simpa using haccept)⟩

theorem Leads.accepting (hp : Regex.Unconditional p.code) {g : Gap} {a b k : Nat} {w : List Rune}
    (hab : p.Leads g a b) (hw : Accepting p.code k b w) : ∃ k', Accepting p.code k' a w := by
  obtain ⟨hpath, -⟩ := hab
  induction hpath using Relation.ReflTransGen.head_induction_on with
  | refl => exact ⟨k, hw⟩
  | head hmove _ ih =>
    obtain ⟨k', hk'⟩ := ih
    obtain ⟨inst, hinst, hc⟩ := hmove
    cases inst with
    | pass next =>
      obtain rfl := List.mem_singleton.mp hc
      exact ⟨_, .pass hinst hk'⟩
    | split l r =>
      simp only [moves, List.mem_cons, List.not_mem_nil, or_false] at hc
      obtain rfl | rfl := hc
      · exact ⟨_, .left hinst hk'⟩
      · exact ⟨_, .right hinst hk'⟩
    | anchor a next => exact absurd hinst (hp _ a next)
    | step test next | accept | stuck => cases hc

/-- A word that is accepted from a place starts with a rune that an instruction takes. -/
theorem exists_take {a k : Nat} {r : Rune} {w : List Rune} (h : Accepting p.code k a (r :: w)) :
    ∃ b c, p.Leads ⟨0, 0⟩ a b ∧ p.take r b = some c ∧ ∃ k', Accepting p.code k' c w := by
  generalize hv : r :: w = v at h
  induction h with
  | accept _ => cases hv
  | @step k a next test r' w' h hr hw =>
    cases hv
    exact ⟨a, next, ⟨.refl, (Array.getElem?_eq_some_iff.mp h).1⟩, by simp [take, h, hr], k, hw⟩
  | pass h _ ih =>
    obtain ⟨b, c, ⟨hpath, hlt⟩, hc⟩ := ih hv
    exact ⟨b, c, ⟨.head ⟨_, h, by simp [moves]⟩ hpath, hlt⟩, hc⟩
  | left h _ ih =>
    obtain ⟨b, c, ⟨hpath, hlt⟩, hc⟩ := ih hv
    exact ⟨b, c, ⟨.head ⟨_, h, by simp [moves]⟩ hpath, hlt⟩, hc⟩
  | right h _ ih =>
    obtain ⟨b, c, ⟨hpath, hlt⟩, hc⟩ := ih hv
    exact ⟨b, c, ⟨.head ⟨_, h, by simp [moves]⟩ hpath, hlt⟩, hc⟩

theorem Accepting.inside {code : Array Inst} {k a : Nat} {w : List Rune}
    (h : Accepting code k a w) : a < code.size := by
  cases h with
  | accept h | step h _ _ | pass h _ | left h _ | right h _ =>
    exact (Array.getElem?_eq_some_iff.mp h).1

/-- A word is accepted from threads iff the rest of it is from the threads behind its first rune. -/
theorem accepted_cons (hp : Regex.Unconditional p.code) {n : Nat} {r : Rune} (hr : rs[n]? = some r)
    (w : List Rune) :
    p.Accepted (p.threadsAt gaps rs n) (r :: w) ↔ p.Accepted (p.threadsAt gaps rs (n + 1)) w := by
  rw [threadsAt, hr]
  constructor
  · rintro ⟨a, ha, k, hk⟩
    obtain ⟨b, c, hab, hc, k', hk'⟩ := exists_take hk
    refine ⟨c, mem_advance.mpr ⟨b, threadsAt_closed ha hp hab, c, hc, .refl, ?_⟩, k', hk'⟩
    exact Accepting.inside hk'
  · rintro ⟨a, ha, k, hk⟩
    obtain ⟨b, hb, c, hc, hca⟩ := mem_advance.mp ha
    obtain ⟨k', hk'⟩ := hca.accepting hp hk
    unfold take at hc
    split at hc
    next test next hinst =>
      split at hc
      next hr =>
        cases hc
        exact ⟨b, hb, _, .step hinst hr hk'⟩
      · cases hc
    · cases hc

/-- What is accepted behind `n` runes are the words accepted before the first one. -/
theorem acceptsAt_iff (hp : Regex.Unconditional p.code) {n : Nat} (hn : n ≤ rs.length) :
    p.acceptsAt gaps rs n = true ↔ p.Accepted (p.begin (gaps 0)) (rs.take n) := by
  have hskip (m : Nat) (hm : m ≤ rs.length) (w : List Rune) :
      p.Accepted (p.begin (gaps 0)) (rs.take m ++ w) ↔ p.Accepted (p.threadsAt gaps rs m) w := by
    induction m generalizing w with
    | zero => exact Iff.rfl
    | succ m ih =>
      have hr : rs[m]? = some rs[m] := List.getElem?_eq_getElem hm
      rw [← accepted_cons hp hr, ← ih (Nat.le_of_succ_le hm), List.take_add_one, hr,
        List.append_assoc]
      rfl
  rw [← accepted_nil hp, ← hskip n hn, List.append_nil]

end Program

/-- **The program of an expression without conditions accepts just its words**, wherever it
starts. -/
theorem Regex.program_accepts {r : Regex} (hfree : r.Free) (gaps : Nat → Gap) {rs : List Rune}
    {n : Nat} (hn : n ≤ rs.length) : r.program.acceptsAt gaps rs n = true ↔ rs.take n ∈ r.lang := by
  have hnone : Unconditional #[Inst.accept] := by
    intro i a next hi
    obtain ⟨hlt, heq⟩ := Array.getElem?_eq_some_iff.mp hi
    obtain rfl : i = 0 := by simpa using hlt
    cases heq
  have hcode : Unconditional r.program.code := emit_unconditional hfree 0 hnone
  have hholds : Holds r.program.code (r.emit 0 #[.accept]).2 (#[Inst.accept] : Array Inst).size :=
    fun i _ _ => rfl
  have haccept : r.program.code[0]? = some .accept := emit_getElem? r 0 #[.accept] (by simp)
  rw [Program.acceptsAt_iff hcode hn]
  constructor
  · rintro ⟨a, ha, k, hk⟩
    rw [Program.begin, Program.mem_reach] at ha
    obtain ⟨s, hs, hsa⟩ := ha
    rw [List.mem_singleton] at hs
    subst hs
    obtain ⟨k', hk'⟩ := hsa.accepting hcode hk
    obtain ⟨v, w, k'', hvw, -, hv, hw⟩ := emit_sound hfree hholds hk'
    have hnil : w = [] := by
      cases hw with
      | accept _ => rfl
      | step h _ _ | pass h _ | left h _ | right h _ => cases haccept.symm.trans h
    rw [hvw, hnil, List.append_nil]
    exact hv
  · intro hmem
    obtain ⟨k, hk⟩ := emit_complete hholds hmem (.accept haccept)
    rw [List.append_nil] at hk
    refine ⟨r.program.start, ?_, k, hk⟩
    rw [Program.begin, Program.mem_reach]
    exact ⟨_, List.mem_singleton_self _, .refl, Program.Accepting.inside hk⟩

end Munch
