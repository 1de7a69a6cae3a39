import Munch.Proofs.Pattern.Factoring

/-!
# The words on the stack

The stack of a pattern that is being read holds, above the last mark, the parts of a sequence, and
below a bar the alternatives so far.

* `Row cur fits L`: the parts `cur`, top first, are those of a sequence with the words `L`. What
  `fits` says of how literals fold must be true for that; the parts are good in any case.
* `Alts alts fits L`: the same of alternatives.
* `opened alts floor`: the stack below a sequence in the choice between `alts` and what is to
  follow.

Results:
* `leads_push`: literals that stand next to each other melt, and a set may become a literal.
* `leads_closeSequence`, `leads_readBar` and `leads_closeAll`: sequences and choices are closed with
  the words that they had on the stack.
-/

namespace Munch.Pattern

open Computability

variable {β : Type}

/-! ## Parts in a row -/

/-- Parts as entries of a stack. -/
def items (parts : List Node) : List Item := parts.map .part

/-- The stack is empty, or a mark is on top of it. -/
def Marked (S : List Item) : Prop := ∀ n rest, S ≠ .part n :: rest

/-- The parts of a sequence, top first. None of them is a set that could be written as a literal. -/
structure Row (cur : List Node) (fits : (Nat → Bool) → Prop) (L : Language Rune) : Prop where
  good : ∀ n ∈ cur, n.Good
  settled : ∀ n ∈ cur, literalOf? n = none
  sense : ∀ F, fits F → (∀ n ∈ cur, n.Crisp F) ∧ (cur.reverse.map Node.lang).prod = L

/-- A single part that stands for a sequence. -/
structure Says (n : Node) (fits : (Nat → Bool) → Prop) (L : Language Rune) : Prop where
  good : n.Good
  sense : ∀ F, fits F → n.Crisp F ∧ n.lang = L

section Rows

variable {cur : List Node} {n : Node} {fits fits' : (Nat → Bool) → Prop} {L M : Language Rune}

theorem row_nil (fits : (Nat → Bool) → Prop) : Row [] fits 1 :=
  ⟨List.forall_mem_nil _, List.forall_mem_nil _, fun _ _ => ⟨List.forall_mem_nil _, rfl⟩⟩

theorem Row.mono (h : Row cur fits L) (hfits : ∀ F, fits' F → fits F) : Row cur fits' L :=
  ⟨h.good, h.settled, fun F hF => h.sense F (hfits F hF)⟩

theorem Says.mono (h : Says n fits L) (hfits : ∀ F, fits' F → fits F) : Says n fits' L :=
  ⟨h.good, fun F hF => h.sense F (hfits F hF)⟩

/-- One more part in the row. -/
theorem Row.push (h : Row cur fits L) (hn : Says n fits M) (hsettled : literalOf? n = none) :
    Row (n :: cur) fits (L * M) := by
  refine ⟨List.forall_mem_cons.mpr ⟨hn.good, h.good⟩,
    List.forall_mem_cons.mpr ⟨hsettled, h.settled⟩,
    fun F hF => ?_⟩
  obtain ⟨hcrisp, hlang⟩ := h.sense F hF
  obtain ⟨hncrisp, hnlang⟩ := hn.sense F hF
  refine ⟨List.forall_mem_cons.mpr ⟨hncrisp, hcrisp⟩, ?_⟩
  rw [List.reverse_cons, List.map_append, List.prod_append, hlang, List.map_singleton,
    List.prod_singleton, hnlang]

/-- The parts with the two topmost literals melted into one, if they fold alike. -/
def melted : List Node → List Node
  | .literal f1 top :: .literal f2 below :: rest =>
    if f1 = f2 then .literal f2 (below ++ top) :: rest
    else .literal f1 top :: .literal f2 below :: rest
  | cur => cur

theorem Row.melted (h : Row cur fits L) : Row (melted cur) fits L := by
  unfold Pattern.melted
  split
  next f1 top f2 below rest =>
    split
    next heq =>
      subst heq
      obtain ⟨hgood, hsettled, hsense⟩ := h
      simp only [List.forall_mem_cons] at hgood hsettled
      refine ⟨List.forall_mem_cons.mpr ⟨?_, hgood.2.2⟩,
        List.forall_mem_cons.mpr ⟨rfl, hsettled.2.2⟩,
        fun F hF => ?_⟩
      · exact .literal (List.forall_mem_append.mpr ⟨hgood.2.1.literal_points,
          hgood.1.literal_points⟩)
      · obtain ⟨hcrisp, hlang⟩ := hsense F hF
        simp only [List.forall_mem_cons] at hcrisp
        refine ⟨List.forall_mem_cons.mpr ⟨?_, hcrisp.2.2⟩, ?_⟩
        · exact .literal (List.forall_mem_append.mpr ⟨hcrisp.2.1.literal_points,
            hcrisp.1.literal_points⟩)
        · rw [← hlang]
          simp only [List.reverse_cons, List.map_append, List.prod_append, List.map_singleton,
            List.prod_singleton, Node.lang_literal_append, mul_assoc]
    · exact h
  · exact h

end Rows

/-! ## Pushing -/

section Pushing

variable {cur : List Node} {base : List Item}

/-- A part on top of a row over a mark is one of the row. -/
theorem items_eq_cons (hbase : Marked base) {n : Node} {rest : List Item}
    (h : items cur ++ base = .part n :: rest) :
    ∃ others, cur = n :: others ∧ rest = items others ++ base := by
  cases cur with
  | nil => exact absurd h (hbase _ _)
  | cons m cur =>
    obtain ⟨hm, hrest⟩ := List.cons.inj h
    cases hm
    exact ⟨cur, rfl, hrest.symm⟩

/-- Where no two literals are on top of the stack there is nothing to melt. -/
theorem melted_of_not
    (h : ∀ f1 top f2 below rest,
      items cur ++ base ≠ .part (.literal f1 top) :: .part (.literal f2 below) :: rest) :
    melted cur = cur := by
  unfold melted
  split
  next f1 top f2 below rest => exact absurd rfl (h f1 top f2 below (items rest ++ base))
  · rfl

theorem leads_meltLiterals (hbase : Marked base) {Q : PUnit → List Item → Prop}
    (h : Q ⟨⟩ (items (melted cur) ++ base)) : Leads meltLiterals (items cur ++ base) Q := by
  refine leads_get fun a _ hstack => ?_
  rw [hstack]
  split
  next f1 top f2 below rest heq =>
    obtain ⟨others, rfl, hothers⟩ := items_eq_cons hbase heq
    obtain ⟨others, rfl, rfl⟩ := items_eq_cons hbase hothers.symm
    rw [melted] at h
    split
    next hfold =>
      rw [if_pos hfold] at h
      refine Leads.bind (leads_modify fun b hflags _ => ⟨hflags, ?_⟩)
      refine (yields_giveBack _).mono ?_
      rintro _ T ⟨rfl, -⟩
      exact h
    next hfold =>
      rw [if_neg hfold] at h
      exact leads_pure h
  next hnone =>
    rw [melted_of_not hnone] at h
    exact leads_pure h

theorem leads_meltAndPush (fold : Bool) (p : Nat) (hbase : Marked base)
    {Q : Bool → List Item → Prop}
    (hpushed : Q true (.part (.literal fold [p]) :: items (melted cur) ++ base))
    (hnot : melted cur = cur → Q false (items cur ++ base)) :
    Leads (meltAndPush fold p) (items cur ++ base) Q := by
  refine leads_get fun a _ hstack => ?_
  rw [hstack]
  split
  next f1 top f2 below rest heq =>
    obtain ⟨others, rfl, hothers⟩ := items_eq_cons hbase heq
    obtain ⟨others, rfl, rfl⟩ := items_eq_cons hbase hothers.symm
    rw [melted] at hpushed hnot
    split
    next hfold =>
      rw [if_pos hfold] at hpushed
      exact Leads.bind (leads_modify fun b hflags _ => ⟨hflags, leads_pure hpushed⟩)
    next hfold =>
      rw [if_neg hfold] at hnot
      exact leads_pure (hnot rfl)
  next hnone => exact leads_pure (hnot (melted_of_not hnone))

theorem leads_put (item : Item) {S : List Item} {Q : PUnit → List Item → Prop}
    (h : Q ⟨⟩ (item :: S)) : Leads (put item) S Q := by
  refine leads_modify fun a hflags hstack => ⟨hflags, ?_⟩
  simp only [hstack]
  exact h

theorem leads_checkLimits (n : Node) {S : List Item} {Q : PUnit → List Item → Prop} (h : Q ⟨⟩ S) :
    Leads (checkLimits n) S Q := by
  refine (yields_checkLimits n S).mono ?_
  rintro _ T ⟨rfl, -⟩
  exact h

/-- A part as it is put on the stack. -/
def settle (n : Node) : Node :=
  match literalOf? n with
  | some (fold, p) => .literal fold [p]
  | none => n

theorem settle_of_none {n : Node} (h : literalOf? n = none) : settle n = n := by
  rw [settle, h]

theorem literalOf?_settle (n : Node) : literalOf? (settle n) = none := by
  unfold settle
  split
  · rfl
  next h => exact h

theorem settle_good {n : Node} (h : n.Good) : (settle n).Good ∧ (settle n).lang = n.lang := by
  unfold settle
  split
  next fold p hlit =>
    obtain ⟨hp, hlang⟩ := Node.literalOf?_spec hlit h
    refine ⟨.literal fun q hq => ?_, hlang⟩
    rw [List.mem_singleton.mp hq]
    exact hp
  · exact ⟨h, rfl⟩

/-- Putting a part on the stack. -/
theorem leads_push (n : Node) (hbase : Marked base) {Q : PUnit → List Item → Prop}
    (h : Q ⟨⟩ (.part (settle n) :: items (melted cur) ++ base)) :
    Leads (push n) (items cur ++ base) Q := by
  refine Leads.bind (leads_modify fun a hflags hstack => ⟨hflags, ?_⟩)
  simp only [hstack]
  unfold settle at h
  split
  next fold p hlit =>
    rw [hlit] at h
    refine Leads.bind (leads_meltAndPush fold p hbase ?_ fun hsame => ?_)
    · exact leads_pure h
    · rw [hsame] at h
      exact Leads.bind (leads_put _ (leads_checkLimits _ h))
  next hlit =>
    rw [hlit] at h
    refine Leads.bind (leads_meltLiterals hbase ?_)
    exact Leads.bind (leads_put _ (leads_checkLimits n h))

theorem leads_pushNew (n : Node) (hbase : Marked base) {Q : PUnit → List Item → Prop}
    (h : Q ⟨⟩ (.part (settle n) :: items (melted cur) ++ base)) :
    Leads (pushNew n) (items cur ++ base) Q :=
  yields_make.leads fun _ _ => leads_push n hbase h

theorem leads_pushMark (mark : Item) (hbase : Marked base) {Q : PUnit → List Item → Prop}
    (h : Q ⟨⟩ (mark :: (items (melted cur) ++ base))) :
    Leads (pushMark mark) (items cur ++ base) Q := by
  refine yields_make.leads fun _ _ => Leads.bind (leads_meltLiterals hbase ?_)
  exact Leads.bind (leads_put mark (leads_checkLimits _ h))

end Pushing

/-! ## Closing a sequence -/

section Sequences

variable {cur : List Node} {base : List Item} {fits : (Nat → Bool) → Prop} {L : Language Rune}

theorem topParts_items (hbase : Marked base) :
    topParts (items cur ++ base) = (cur.reverse, base) := by
  induction cur with
  | nil =>
    show topParts base = ([], base)
    unfold topParts
    split
    next n rest => exact absurd rfl (hbase n rest)
    · rfl
  | cons n cur ih =>
    show topParts (.part n :: (items cur ++ base)) = _
    rw [topParts, ih, List.reverse_cons]

theorem leads_takeParts (hbase : Marked base) {Q : List Node → List Item → Prop}
    (h : Q cur.reverse base) : Leads takeParts (items cur ++ base) Q := by
  refine leads_get fun a _ hstack => ?_
  rw [hstack, topParts_items hbase]
  exact Leads.bind (leads_modify fun b hflags _ => ⟨hflags, leads_pure h⟩)

/-- Parts that say the same in a row. -/
structure Lifted (before after : List Node) : Prop where
  good : (∀ n ∈ before, n.Good) → ∀ n ∈ after, n.Good
  crisp : ∀ F, (∀ n ∈ before, n.Crisp F) → ∀ n ∈ after, n.Crisp F
  lang : (after.map Node.lang).prod = (before.map Node.lang).prod

theorem yields_liftSequences (parts : List Node) : Yields (liftSequences parts) (Lifted parts) := by
  induction parts with
  | nil => exact yields_pure ⟨id, fun _ => id, rfl⟩
  | cons part parts ih =>
    unfold liftSequences
    split
    next heq => cases heq
    next inner _ heq =>
      cases heq
      refine yields_giveBack.bind fun _ _ => ih.bind fun more hmore =>
        yields_pure ⟨?_, fun F => ?_, ?_⟩
      · rw [List.forall_mem_cons, List.forall_mem_append]
        exact fun h => ⟨h.1.sequence_parts, hmore.good h.2⟩
      · rw [List.forall_mem_cons, List.forall_mem_append]
        exact fun h => ⟨h.1.sequence_parts, hmore.crisp F h.2⟩
      · rw [List.map_append, List.prod_append, hmore.lang, List.map_cons, List.prod_cons,
          Node.lang_sequence]
    next heq =>
      cases heq
      refine ih.bind fun more hmore => yields_pure ⟨?_, fun F => ?_, ?_⟩
      · rw [List.forall_mem_cons, List.forall_mem_cons]
        exact fun h => ⟨h.1, hmore.good h.2⟩
      · rw [List.forall_mem_cons, List.forall_mem_cons]
        exact fun h => ⟨h.1, hmore.crisp F h.2⟩
      · rw [List.map_cons, List.prod_cons, hmore.lang, List.map_cons, List.prod_cons]

/-- **A sequence is closed with the words of its row.** -/
theorem leads_closeSequence (hbase : Marked base) (hrow : Row cur fits L)
    {Q : PUnit → List Item → Prop} (h : ∀ n, Says n fits L → Q ⟨⟩ (.part n :: base)) :
    Leads closeSequence (items cur ++ base) Q := by
  have hmelted := hrow.melted
  have hpush (n : Node) (hn : literalOf? n = none) (hn' : Says n fits L) :
      Leads (push n) base Q := by
    refine @leads_push [] base n hbase Q ?_
    rw [settle_of_none hn]
    exact h n hn'
  refine Leads.bind (leads_meltLiterals hbase (Leads.bind (leads_takeParts hbase ?_)))
  split
  next hnil =>
    rw [List.reverse_eq_nil_iff] at hnil
    rw [hnil] at hmelted
    exact yields_make.leads fun _ _ => hpush _ rfl
      ⟨.empty, fun F hF => ⟨.empty, (hmelted.sense F hF).2⟩⟩
  next part hpart =>
    have hcur : melted cur = [part] := by rw [← List.reverse_reverse (melted cur), hpart]; rfl
    rw [hcur] at hmelted
    refine hpush part (hmelted.settled part (List.mem_singleton_self _))
      ⟨hmelted.good part (List.mem_singleton_self _), fun F hF => ?_⟩
    obtain ⟨hcrisp, hlang⟩ := hmelted.sense F hF
    refine ⟨hcrisp part (List.mem_singleton_self _), hlang ▸ ?_⟩
    exact (List.prod_singleton).symm
  · refine yields_make.leads fun _ _ => (yields_liftSequences _).leads fun parts hparts => ?_
    refine hpush _ rfl ⟨.sequence (hparts.good fun n hn => hmelted.good n (List.mem_reverse.mp hn)),
      fun F hF => ?_⟩
    obtain ⟨hcrisp, hlang⟩ := hmelted.sense F hF
    refine ⟨.sequence (hparts.crisp F fun n hn => hcrisp n (List.mem_reverse.mp hn)), ?_⟩
    rw [Node.lang_sequence, hparts.lang, hlang]

end Sequences

/-! ## Alternatives -/

/-- The alternatives of a choice. -/
structure Alts (alts : List Node) (fits : (Nat → Bool) → Prop) (L : Language Rune) : Prop where
  good : ∀ n ∈ alts, n.Good
  sense : ∀ F, fits F → (∀ n ∈ alts, n.Crisp F) ∧ (alts.map Node.lang).sum = L

/-- The stack below a sequence, with the alternatives before it. -/
def opened : (alts : List Node) → (floor : List Item) → List Item
  | [], floor => floor
  | alts, floor => .bar :: (items alts ++ floor)

/-- The stack is empty, or a group is open on top of it. -/
def Floor (S : List Item) : Prop :=
  S = [] ∨ ∃ capturing outer rest, S = .group capturing outer :: rest

section Choices

variable {cur alts : List Node} {floor : List Item} {n : Node} {fits fits' : (Nat → Bool) → Prop}
  {L M : Language Rune}

theorem alts_nil (fits : (Nat → Bool) → Prop) : Alts [] fits 0 :=
  ⟨List.forall_mem_nil _, fun _ _ => ⟨List.forall_mem_nil _, rfl⟩⟩

theorem Alts.mono (h : Alts alts fits L) (hfits : ∀ F, fits' F → fits F) : Alts alts fits' L :=
  ⟨h.good, fun F hF => h.sense F (hfits F hF)⟩

theorem Alts.cons (h : Alts alts fits L) (hn : Says n fits M) : Alts (n :: alts) fits (L + M) := by
  refine ⟨List.forall_mem_cons.mpr ⟨hn.good, h.good⟩, fun F hF => ?_⟩
  obtain ⟨hcrisp, hsum⟩ := h.sense F hF
  obtain ⟨hncrisp, hlang⟩ := hn.sense F hF
  refine ⟨List.forall_mem_cons.mpr ⟨hncrisp, hcrisp⟩, ?_⟩
  rw [List.map_cons, List.sum_cons, hsum, hlang, add_comm]

theorem Floor.marked (h : Floor floor) : Marked floor := by
  rintro n rest rfl
  obtain h | ⟨_, _, _, h⟩ := h
  · cases h
  · cases h

theorem marked_opened (h : Floor floor) (alts : List Node) : Marked (opened alts floor) := by
  cases alts with
  | nil => exact h.marked
  | cons n alts => rintro _ _ ⟨⟩

/-- A part above a bar goes below it; steps become one. -/
theorem leads_swapBar (hfloor : Floor floor) (halts : Alts alts fits L) (hn : Says n fits M)
    {Q : Bool → List Item → Prop}
    (hswapped : ∀ alts', alts' ≠ [] → Alts alts' fits (L + M) → Q true (opened alts' floor))
    (hnot : alts = [] → Q false (.part n :: floor)) :
    Leads swapBar (.part n :: opened alts floor) Q := by
  refine leads_get fun a _ hstack => ?_
  rw [hstack]
  cases alts with
  | nil =>
    obtain rfl | ⟨_, _, _, rfl⟩ := hfloor
    · exact leads_pure (hnot rfl)
    · exact leads_pure (hnot rfl)
  | cons below alts =>
    have hbelow := halts.good below List.mem_cons_self
    show Leads (if n.isStep && below.isStep then _ else _) _ _
    split
    next hsteps =>
      rw [Bool.and_eq_true] at hsteps
      have hmerge (F : Nat → Bool) := Node.mergeSteps_spec (F := F) hbelow hn.good hsteps.2 hsteps.1
      refine Leads.bind (leads_modify fun b hflags _ => ⟨hflags, ?_⟩)
      refine yields_giveBack.leads fun _ _ =>
        leads_pure (hswapped (mergeSteps below n :: alts) (by rintro ⟨⟩) ?_)
      refine ⟨List.forall_mem_cons.mpr ⟨(hmerge fun _ => false).1,
        fun m hm => halts.good m (List.mem_cons_of_mem _ hm)⟩, fun F hF => ?_⟩
      obtain ⟨hcrisp, hsum⟩ := halts.sense F hF
      obtain ⟨-, hlang⟩ := hn.sense F hF
      obtain ⟨-, -, hmlang, hmcrisp⟩ := hmerge F
      rw [List.forall_mem_cons] at hcrisp
      refine ⟨List.forall_mem_cons.mpr ⟨hmcrisp hcrisp.1, hcrisp.2⟩, ?_⟩
      rw [← hsum, List.map_cons, List.map_cons, List.sum_cons, List.sum_cons, hmlang, hlang]
      exact add_right_comm _ _ _
    · refine Leads.bind (leads_modify fun b hflags _ => ⟨hflags, ?_⟩)
      rw [hbelow.tidied]
      exact leads_pure (hswapped (n :: below :: alts) (by rintro ⟨⟩) (halts.cons hn))

/-- **A bar closes the sequence before it**, which becomes an alternative. -/
theorem leads_readBar (hfloor : Floor floor) (halts : Alts alts fits L) (hrow : Row cur fits M)
    {Q : PUnit → List Item → Prop}
    (h : ∀ alts', Alts alts' fits (L + M) → Q ⟨⟩ (opened alts' floor)) :
    Leads readBar (items cur ++ opened alts floor) Q := by
  refine Leads.bind (leads_closeSequence (marked_opened hfloor alts) hrow fun n hn => ?_)
  refine Leads.bind
    (leads_swapBar hfloor halts hn (fun alts' _ halts' => leads_pure (h alts' halts')) ?_)
  rintro rfl
  have hone : melted [n] = [n] := by cases n <;> rfl
  refine @leads_pushMark [n] floor .bar hfloor.marked Q ?_
  rw [hone]
  exact h [n] (halts.cons hn)

theorem tidyLast_good {parts : List Node} (h : ∀ n ∈ parts, n.Good) : tidyLast parts = parts := by
  fun_induction tidyLast parts with
  | case1 => rfl
  | case2 part => rw [(h part List.mem_cons_self).tidied]
  | case3 part parts _ ih => rw [ih fun n hn => h n (List.mem_cons_of_mem _ hn)]

/-- **A choice is closed with the words of its alternatives.** -/
theorem leads_closeAll (hfloor : Floor floor) (halts : Alts alts fits L) (hrow : Row cur fits M)
    {Q : PUnit → List Item → Prop}
    (h : ∀ n : Node, n.Good → (∀ F, fits F → n.lang = L + M) → Q ⟨⟩ (.part n :: floor)) :
    Leads closeAll (items cur ++ opened alts floor) Q := by
  have hclose (alts' : List Node) (halts' : Alts alts' fits (L + M)) :
      Leads closeChoice (items alts' ++ floor) Q := by
    refine Leads.bind (leads_takeParts hfloor.marked ?_)
    have hgood : ∀ n ∈ alts'.reverse, n.Good := fun n hn => halts'.good n (List.mem_reverse.mp hn)
    simp only [tidyLast_good hgood]
    refine (yields_factored _ _).leads fun n hn => @leads_push [] floor n hfloor.marked Q ?_
    obtain ⟨hngood, hsense⟩ := hn hgood
    obtain ⟨hsettled, hlang⟩ := settle_good (hngood n (List.mem_singleton_self n))
    refine h _ hsettled fun F hF => ?_
    obtain ⟨hcrisp, hsum⟩ := halts'.sense F hF
    obtain ⟨-, hnsum⟩ := hsense F fun n hn => hcrisp n (List.mem_reverse.mp hn)
    rw [List.map_singleton, List.sum_singleton, List.map_reverse, List.sum_reverse] at hnsum
    rw [hlang, hnsum, hsum]
  refine Leads.bind (leads_closeSequence (marked_opened hfloor alts) hrow fun n hn => ?_)
  refine Leads.bind (leads_swapBar hfloor halts hn (fun alts' hne halts' => ?_) ?_)
  · obtain ⟨first, others, rfl⟩ := List.exists_cons_of_ne_nil hne
    refine Leads.bind (leads_modify fun b hflags hT => ⟨hflags, ?_⟩)
    simp only [hT]
    exact hclose _ halts'
  · rintro rfl
    exact hclose [n] (halts.cons hn)

/-- **A group is closed** and becomes a part of the row outside of it. -/
theorem leads_closeGroup {outer : List Node} {base : List Item} (hbase : Marked base)
    (halts : Alts alts fits L) (hrow : Row cur fits M) {Q : PUnit → List Item → Prop}
    (h : ∀ n : Node, n.Good → (∀ F, fits F → n.lang = L + M) →
      Q ⟨⟩ (.part (.capture n) :: items (melted outer) ++ base)) :
    Leads closeGroup (items cur ++ opened alts (.group true {} :: (items outer ++ base))) Q := by
  refine Leads.bind (leads_closeAll (.inr ⟨_, _, _, rfl⟩) halts hrow fun n hgood hlang => ?_)
  refine leads_get fun a _ hstack => ?_
  rw [hstack]
  refine Leads.bind (leads_modify fun b _ _ => ⟨rfl, ?_⟩)
  exact leads_push (.capture n) hbase (h n hgood hlang)

end Choices

/-- A repetition takes the place of the part on top of the stack. -/
theorem leads_repeatTop (wrap : Node → Node) {n : Node} {S : List Item}
    {Q : Option Node → List Item → Prop} (h : Q (some (wrap n)) (.part (wrap n) :: S)) :
    Leads (repeatTop wrap) (.part n :: S) Q := by
  refine leads_get fun a _ hstack => ?_
  rw [hstack]
  refine yields_make.leads fun _ _ => Leads.bind (leads_modify fun b hflags _ => ⟨hflags, ?_⟩)
  exact Leads.bind (leads_checkLimits _ (leads_pure h))

end Munch.Pattern
