import Munch.Proofs.Pattern.Parts

/-!
# Factoring keeps the words of a choice

A choice is factored in four passes: choices among the parts are lifted, literals that parts start
with are factored out, then first parts that look alike, and parts that take a single rune become
sets. Each pass puts parts in the place of others.

Results:
* `literalRuns_spec`, `leadingRuns_spec`: the parts of a choice fall into runs that start alike.
* `yields_literalRun`, `yields_leadingRun` and `yields_mergeRuns`: what each pass puts in place.
* **`yields_factored`**: a factored choice has the words of its parts, if they are crisp.
-/

namespace Munch.Pattern

variable {β γ : Type}

/-! ## Runs of parts that start alike -/

theorem commonStart_prefix (xs ys : List Nat) :
    commonStart xs ys <+: xs ∧ commonStart xs ys <+: ys := by
  induction xs generalizing ys with
  | nil => exact ⟨List.nil_prefix, List.nil_prefix⟩
  | cons x xs ih =>
    cases ys with
    | nil => exact ⟨List.nil_prefix, List.nil_prefix⟩
    | cons y ys =>
      rw [commonStart]
      split
      next heq =>
        subst heq
        exact ⟨List.cons_prefix_cons.mpr ⟨rfl, (ih ys).1⟩,
          List.cons_prefix_cons.mpr ⟨rfl, (ih ys).2⟩⟩
      · exact ⟨List.nil_prefix, List.nil_prefix⟩

/-- The part starts with the literal of the run. -/
def LiteralRun.Starts (run : LiteralRun) (part : Node) : Prop :=
  part.leadingLiteral.1 = run.fold ∧ run.points <+: part.leadingLiteral.2

theorem literalRuns_spec (run : LiteralRun) (parts : List Node)
    (h : ∀ part ∈ run.parts, run.Starts part) :
    (∀ R ∈ literalRuns run parts, ∀ part ∈ R.parts, R.Starts part) ∧
      (literalRuns run parts).flatMap (·.parts) = run.parts.reverse ++ parts := by
  have hdone (run : LiteralRun) (h : ∀ part ∈ run.parts, run.Starts part) :
      ∀ part ∈ run.parts.reverse, LiteralRun.Starts { run with parts := run.parts.reverse } part :=
    fun part hp => h part (List.mem_reverse.mp hp)
  induction parts generalizing run with
  | nil =>
    rw [literalRuns, List.flatMap_singleton, List.append_nil]
    refine ⟨fun R hR => ?_, rfl⟩
    rw [List.mem_singleton.mp hR]
    exact hdone run h
  | cons part parts ih =>
    rw [literalRuns]
    simp only
    obtain ⟨hleft, hright⟩ := commonStart_prefix run.points part.leadingLiteral.2
    split
    next hgo =>
      obtain ⟨hruns, hall⟩ := ih { run with
          points := commonStart run.points part.leadingLiteral.2, parts := part :: run.parts } (by
        refine List.forall_mem_cons.mpr ⟨⟨hgo.1, hright⟩, fun q hq => ?_⟩
        exact ⟨(h q hq).1, hleft.trans (h q hq).2⟩)
      refine ⟨hruns, hall.trans ?_⟩
      rw [List.reverse_cons, List.append_assoc, List.singleton_append]
    · obtain ⟨hruns, hall⟩ := ih ⟨part.leadingLiteral.1, part.leadingLiteral.2, [part]⟩ (by
        rintro q hq
        rw [List.mem_singleton.mp hq]
        exact ⟨rfl, List.prefix_rfl⟩)
      refine ⟨List.forall_mem_cons.mpr ⟨hdone run h, hruns⟩, ?_⟩
      rw [List.flatMap_cons, hall]
      rfl

/-- The first parts of a run look alike: `first` is the one of some part of it. -/
structure Alike (first : Option Node) (run : List Node) : Prop where
  single : first = none → run.length ≤ 1
  lead : ∀ f, first = some f → ∃ part ∈ run, part.leading? = some f
  alike : ∀ f, first = some f → ∀ part ∈ run,
    ∃ l, part.leading? = some l ∧ (l = f ∨ f.looksLike l = true ∧ f.isFactor = true)

theorem Alike.reverse {first : Option Node} {run : List Node} (h : Alike first run) :
    Alike first run.reverse := by
  refine ⟨fun hnone => ?_, fun f hf => ?_, fun f hf part hp =>
    h.alike f hf part (List.mem_reverse.mp hp)⟩
  · rw [List.length_reverse]
    exact h.single hnone
  · obtain ⟨part, hp, hlead⟩ := h.lead f hf
    exact ⟨part, List.mem_reverse.mpr hp, hlead⟩

theorem alike_singleton (part : Node) : Alike part.leading? [part] := by
  refine ⟨fun _ => Nat.le_refl 1, fun f hf => ⟨part, List.mem_singleton_self _, hf⟩,
    fun f hf q hq => ?_⟩
  rw [List.mem_singleton.mp hq]
  exact ⟨f, hf, .inl rfl⟩

theorem leadingRuns_spec (first : Option Node) (run parts : List Node) (h : Alike first run) :
    (∀ R ∈ leadingRuns first run parts, Alike R.1 R.2) ∧
      (leadingRuns first run parts).flatMap (·.2) = run.reverse ++ parts := by
  induction parts generalizing first run with
  | nil =>
    rw [leadingRuns, List.flatMap_singleton, List.append_nil]
    refine ⟨fun R hR => ?_, rfl⟩
    rw [List.mem_singleton.mp hR]
    exact h.reverse
  | cons part parts ih =>
    have hnew :
      (∀ R ∈ (first, run.reverse) :: leadingRuns part.leading? [part] parts, Alike R.1 R.2) ∧
        ((first, run.reverse) :: leadingRuns part.leading? [part] parts).flatMap (·.2) =
          run.reverse ++ part :: parts := by
      obtain ⟨hruns, hall⟩ := ih part.leading? [part] (alike_singleton part)
      refine ⟨List.forall_mem_cons.mpr ⟨h.reverse, hruns⟩, ?_⟩
      rw [List.flatMap_cons, hall]
      rfl
    rw [leadingRuns.eq_def]
    simp only
    split
    next f l hl =>
      split
      next hgo =>
        rw [Bool.and_eq_true] at hgo
        obtain ⟨hruns, hall⟩ := ih (some f) (part :: run) (by
          refine ⟨by rintro ⟨⟩, fun f' hf' => ?_, ?_⟩
          · obtain ⟨q, hq, hlead⟩ := h.lead f' hf'
            exact ⟨q, List.mem_cons_of_mem _ hq, hlead⟩
          · rintro _ ⟨⟩
            exact List.forall_mem_cons.mpr ⟨⟨l, hl, .inr hgo⟩, h.alike f rfl⟩)
        refine ⟨hruns, hall.trans ?_⟩
        rw [List.reverse_cons, List.append_assoc, List.singleton_append]
      · exact hnew
    · exact hnew

/-! ## Steps in a row -/

/-- Steps that are merged one after the other. -/
theorem foldl_mergeSteps (last : Node) (others : List Node) (hgood : ∀ n ∈ last :: others, n.Good)
    (hstep : ∀ n ∈ last :: others, n.isStep = true) :
    (others.foldl (fun n m => mergeSteps m n) last).Good ∧
      (others.foldl (fun n m => mergeSteps m n) last).lang = ((last :: others).map Node.lang).sum ∧
      ∀ F, (∀ n ∈ last :: others, n.Crisp F) →
        (others.foldl (fun n m => mergeSteps m n) last).Crisp F := by
  induction others generalizing last with
  | nil =>
    refine ⟨hgood last List.mem_cons_self, ?_, fun F h => h last List.mem_cons_self⟩
    rw [List.map_singleton, List.sum_singleton]
    rfl
  | cons m others ih =>
    simp only [List.forall_mem_cons] at hgood hstep ih ⊢
    have hmerge (F : Nat → Bool) :=
      Node.mergeSteps_spec (F := F) hgood.2.1 hgood.1 hstep.2.1 hstep.1
    obtain ⟨hmergeGood, hmergeStep, hmergeLang, -⟩ := hmerge fun _ => false
    obtain ⟨hresult, hlang, hcrisp⟩ := ih (mergeSteps m last) ⟨hmergeGood, hgood.2.2⟩
      ⟨hmergeStep, hstep.2.2⟩
    refine ⟨hresult, ?_, fun F h => hcrisp F ⟨(hmerge F).2.2.2 h.2.1, h.2.2⟩⟩
    rw [List.foldl_cons, hlang, List.map_cons, List.map_cons, List.map_cons, List.sum_cons,
      List.sum_cons, List.sum_cons, hmergeLang, add_comm m.lang, add_assoc]

theorem yields_flush (run : List Node) (h : ∀ n ∈ run, n.isStep = true) :
    Yields (mergeRuns.flush run) (Replaces run.reverse) := by
  unfold mergeRuns.flush
  split
  · exact yields_pure (.refl _)
  · exact yields_pure (.refl _)
  next last others _ =>
    refine (yields_forM fun _ _ => yields_giveBack).bind fun _ _ => yields_pure fun hgood => ?_
    have hgood' : ∀ n ∈ last :: others, n.Good := fun n hn => hgood n (List.mem_reverse.mpr hn)
    obtain ⟨hmerged, hlang, hcrisp⟩ := foldl_mergeSteps last others hgood' h
    rw [hmerged.tidied]
    refine ⟨?_, fun F hF => ⟨?_, ?_⟩⟩
    · rintro n hn
      rw [List.mem_singleton.mp hn]
      exact hmerged
    · rintro n hn
      rw [List.mem_singleton.mp hn]
      exact hcrisp F fun n hn => hF n (List.mem_reverse.mpr hn)
    · rw [List.map_singleton, List.sum_singleton, hlang, List.map_reverse, List.sum_reverse]

theorem yields_mergeRuns (run parts : List Node) (h : ∀ n ∈ run, n.isStep = true) :
    Yields (mergeRuns run parts) (Replaces (run.reverse ++ parts)) := by
  induction parts generalizing run with
  | nil =>
    rw [List.append_nil]
    exact yields_flush run h
  | cons part parts ih =>
    rw [mergeRuns]
    split
    next hstep =>
      have hrun := ih (part :: run) (List.forall_mem_cons.mpr ⟨hstep, h⟩)
      rwa [List.reverse_cons, List.append_assoc, List.singleton_append] at hrun
    · refine (yields_flush run h).bind fun done hdone => ?_
      refine (ih [] (List.forall_mem_nil _)).bind fun more hmore => yields_pure ?_
      exact hdone.append (hmore.cons part)

/-! ## A whole choice -/

theorem Node.Good.leadingLiteral {n : Node} (h : n.Good) :
    (Node.literal n.leadingLiteral.1 n.leadingLiteral.2).Good := by
  unfold Node.leadingLiteral
  split
  · exact h
  · exact h.sequence_parts _ List.mem_cons_self
  · exact .literal (List.forall_mem_nil _)

theorem Node.Crisp.leadingLiteral {n : Node} {F : Nat → Bool} (h : n.Crisp F) :
    (Node.literal n.leadingLiteral.1 n.leadingLiteral.2).Crisp F := by
  unfold Node.leadingLiteral
  split
  · exact h
  · exact h.sequence_parts _ List.mem_cons_self
  · exact .literal (List.forall_mem_nil _)

theorem Node.Good.leading? {n lead : Node} (h : n.Good) (hlead : n.leading? = some lead) :
    lead.Good := by
  unfold Node.leading? at hlead
  split at hlead
  · cases hlead
  · cases hlead
  · cases hlead
    exact h.sequence_parts _ List.mem_cons_self
  · cases hlead
    exact h

theorem Node.Crisp.leading? {n lead : Node} {F : Nat → Bool} (h : n.Crisp F)
    (hlead : n.leading? = some lead) : lead.Crisp F := by
  unfold Node.leading? at hlead
  split at hlead
  · cases hlead
  · cases hlead
  · cases hlead
    exact h.sequence_parts _ List.mem_cons_self
  · cases hlead
    exact h

/-- A run with a common leading literal can be replaced by one sequence. -/
theorem LiteralRun.replaces {run : LiteralRun} (hrun : ∀ part ∈ run.parts, run.Starts part)
    (hne : run.parts ≠ []) {rests : List Node} {tail : Node}
    (hrests : List.Forall₂ (Leaves (.literal run.fold run.points)) run.parts rests)
    (htail : Replaces rests [tail]) :
    Replaces run.parts [.sequence [.literal run.fold run.points, tail]] := by
  obtain ⟨part, others, hparts⟩ := List.exists_cons_of_ne_nil hne
  have hpart : part ∈ run.parts := hparts ▸ List.mem_cons_self
  obtain ⟨hfold, hstart⟩ := hrun part hpart
  refine Replaces.factor hrests htail (fun hgood => ?_) fun F hcrisp => ?_
  · have h := (hgood part hpart).leadingLiteral
    rw [hfold] at h
    exact .literal fun p hp => h.literal_points p (hstart.subset hp)
  · have h := (hcrisp part hpart).leadingLiteral
    rw [hfold] at h
    exact .literal fun p hp => h.literal_points p (hstart.subset hp)

/-- What is left of a part of a run that starts with a part that looks like `lead`. -/
theorem Leaves.alike {lead l part rest : Node} (h : Leaves l part rest)
    (hl : part.leading? = some l)
    (halike : l = lead ∨ lead.looksLike l = true ∧ lead.isFactor = true) :
    Leaves lead part rest := by
  refine ⟨h.good, fun hgood hleadGood F hcrisp hleadCrisp => ?_⟩
  have hlGood := hgood.leading? hl
  have hlCrisp := hcrisp.leading? hl
  have heq : lead = l := by
    obtain rfl | ⟨hlooks, hfactor⟩ := halike
    · rfl
    · exact Node.eq_of_looksLike hleadGood hlGood hleadCrisp hlCrisp hlooks hfactor
  rw [heq]
  exact h.sense hgood hlGood F hcrisp hlCrisp

/-- What becomes of a part that is taken apart. -/
theorem yields_checked {lead part : Node} {m : Build Node} (hm : Yields m (Leaves lead part)) :
    Yields (do let rest ← m; checkLimits rest; pure rest) (Leaves lead part) :=
  hm.bind fun rest hrest => (yields_checkLimits rest).bind fun _ _ => yields_pure hrest

section Passes

variable {depth : Nat} (ih : ∀ parts, Yields (factored depth parts) fun n => Replaces parts [n])
include ih

/-- The pass for common literals. -/
theorem yields_literalRun {run : LiteralRun} (hrun : ∀ part ∈ run.parts, run.Starts part)
    (hne : run.parts ≠ []) :
    Yields (do
      make
      let rests ← run.parts.mapM fun part => do
        let rest ← dropLiteral run.points.length part
        checkLimits rest
        pure rest
      let tail ← factored depth rests
      make
      pure (.sequence [.literal run.fold run.points, tail])) fun n => Replaces run.parts [n] := by
  have hdrop (part : Node) (hp : part ∈ run.parts) :
      Yields (dropLiteral run.points.length part) (Leaves (.literal run.fold run.points) part) := by
    obtain ⟨hfold, more, hmore⟩ := hrun part hp
    exact yields_dropLiteral (Prod.ext hfold hmore.symm)
  refine yields_make.bind fun _ _ =>
    (yields_mapM fun part hp => yields_checked (hdrop part hp)).bind fun rests hrests => ?_
  refine (ih rests).bind fun tail htail => yields_make.bind fun _ _ => yields_pure ?_
  exact run.replaces hrun hne hrests htail

/-- The pass for common first parts. -/
theorem yields_leadingRun {first : Option Node} {run : List Node} (h : Alike first run)
    (hne : run ≠ []) :
    Yields (match first, run with
      | some lead, head :: next :: others => do
        let rest ← dropLeading false head
        checkLimits rest
        let rests ← (next :: others).mapM fun part => do
          let rest ← dropLeading true part
          checkLimits rest
          pure rest
        let tail ← factored depth (rest :: rests)
        make
        pure (.sequence [lead, tail])
      | _, parts => pure (parts.headD .empty)) fun n => Replaces run [n] := by
  split
  next lead head next others =>
    have hdrop (again : Bool) (part : Node) (hp : part ∈ head :: next :: others) :
        Yields (dropLeading again part) (Leaves lead part) := by
      obtain ⟨l, hl, halike⟩ := h.alike lead rfl part hp
      exact (yields_dropLeading again hl).mono fun rest hrest => hrest.alike hl halike
    obtain ⟨part, hp, hlead⟩ := h.lead lead rfl
    refine (hdrop false head List.mem_cons_self).bind fun rest hrest =>
      (yields_checkLimits rest).bind fun _ _ => ?_
    refine (yields_mapM fun part hp => yields_checked
      (hdrop true part (List.mem_cons_of_mem _ hp))).bind fun rests hrests => ?_
    refine (ih (rest :: rests)).bind fun tail htail => yields_make.bind fun _ _ => yields_pure ?_
    exact Replaces.factor (.cons hrest hrests) htail (fun hgood => (hgood part hp).leading? hlead)
      fun F hcrisp => (hcrisp part hp).leading? hlead
  next hfew =>
    obtain ⟨part, others, rfl⟩ := List.exists_cons_of_ne_nil hne
    have hnil : others = [] := by
      cases first with
      | none => simpa using h.single rfl
      | some lead =>
        cases others with
        | nil => rfl
        | cons next others => exact (hfew lead part next others rfl rfl).elim
    rw [hnil]
    exact yields_pure (.refl _)

end Passes

/-- Runs without parts count for nothing. -/
theorem flatMap_filter_isEmpty (f : β → List γ) (rs : List β) :
    (rs.filter fun r => !(f r).isEmpty).flatMap f = rs.flatMap f := by
  induction rs with
  | nil => rfl
  | cons r rs ih =>
    rw [List.filter_cons, List.flatMap_cons]
    split
    · rw [List.flatMap_cons, ih]
    next hempty =>
      have hnil : f r = [] := by simpa using hempty
      rw [ih, hnil, List.nil_append]

/-- **A factored choice has the words of its parts**, if they are crisp. The induction is on the
depth. -/
theorem yields_factored (depth : Nat) (parts : List Node) :
    Yields (factored depth parts) fun n => Replaces parts [n] := by
  induction depth generalizing parts with
  | zero =>
    unfold factored
    split
    · exact yields_pure (.refl _)
    · exact yields_pure (.choice _)
    next heq _ => cases heq
  | succ depth ih =>
    unfold factored
    split
    · exact yields_pure (.refl _)
    next heq _ => cases heq
    next heq _ =>
      cases heq
      refine yields_make.bind fun _ _ => (yields_liftChoices _).bind fun lifted hlifted => ?_
      obtain ⟨hruns, hall⟩ := literalRuns_spec ⟨false, [], []⟩ lifted (List.forall_mem_nil _)
      refine (yields_mapM (R := fun run n => Replaces run.parts [n]) fun run hrun => ?_).bind
        fun first hfirst => ?_
      · rw [List.mem_filter] at hrun
        split
        next part heq =>
          rw [heq]
          exact yields_pure (.refl _)
        · exact yields_literalRun ih (hruns run hrun.1) (by simpa using hrun.2)
      have hliterals : Replaces lifted first := by
        have h := Replaces.runs hfirst
        rwa [flatMap_filter_isEmpty, hall] at h
      obtain ⟨hruns', hall'⟩ := leadingRuns_spec none [] first
        ⟨fun _ => Nat.zero_le 1, by rintro f ⟨⟩, by rintro f ⟨⟩⟩
      refine (yields_mapM (R := fun run n => Replaces run.2 [n]) fun run hrun => ?_).bind
        fun second hsecond => ?_
      · rw [List.mem_filter] at hrun
        exact yields_leadingRun ih (hruns' run hrun.1) (by simpa using hrun.2)
      have hleads : Replaces first second := by
        have h := Replaces.runs hsecond
        rwa [flatMap_filter_isEmpty, hall'] at h
      refine (yields_mergeRuns [] second (List.forall_mem_nil _)).bind fun merged hmerged => ?_
      have hwhole := ((hlifted.trans hliterals).trans hleads).trans
        (hmerged.trans (replaces_dropEmpties merged))
      split
      next part heq =>
        rw [heq] at hwhole
        exact yields_giveBack.bind fun _ _ => yields_pure hwhole
      · exact yields_pure (hwhole.trans (.choice _))

end Munch.Pattern
