import Munch.Proofs.Pattern.Node

/-!
# Parts of a choice

Factoring builds new parts out of the parts of a choice. It takes from them what they start with,
and puts what is left in their place.

* `Leads m S Q`: if the step of building `m` succeeds, in the plain modes and with the stack `S`,
  then the modes are plain still, and `Q` is true of the result and the stack.
* `Yields m P`: besides, it leaves the stack as it is, and `P` is true of the result.
* `Replaces before after`: the parts `after` can stand in a choice in the place of the parts
  `before`. They have the same words if those are crisp.
* `Leaves lead node rest`: the part `node` starts with `lead`, and `rest` is what it leaves.

Results:
* `yields_liftChoices`, `replaces_dropEmpties`: choices among the parts, and parts that take
  nothing.
* `Replaces.factor`: what parts start with is put in front of a choice of what they leave.
* `yields_dropLiteral`, `yields_dropLeading`: taking away what a part starts with.
-/

namespace Munch.Pattern

variable {β γ : Type}

/-! ## Steps of building -/

/-- If the step succeeds then `Q` is true of its result and of the stack it leaves. -/
def Leads (m : Build β) (S : List Item) (Q : β → List Item → Prop) : Prop :=
  ∀ a : Assembly, a.flags = {} → a.stack = S →
    ∀ x a', m a = .ok (x, a') → a'.flags = {} ∧ Q x a'.stack

section Leads

variable {m : Build β} {S : List Item} {Q : β → List Item → Prop}

theorem leads_pure {x : β} (h : Q x S) : Leads (pure x) S Q := by
  rintro a hflags rfl y a' ⟨⟩
  exact ⟨hflags, h⟩

theorem leads_throw (f : Fault) : Leads (throw f : Build β) S Q := by
  rintro a - - x a' ⟨⟩

theorem Leads.bind {f : β → Build γ} {Q : γ → List Item → Prop}
    (h : Leads m S fun x T => Leads (f x) T Q) : Leads (m >>= f) S Q := by
  intro a hflags hstack y a' hrun
  change (m a >>= fun p => f p.1 p.2) = _ at hrun
  cases hm : m a with
  | error e =>
    rw [hm] at hrun
    cases hrun
  | ok p =>
    rw [hm] at hrun
    obtain ⟨hflags', hnext⟩ := h a hflags hstack p.1 p.2 hm
    exact hnext p.2 hflags' rfl y a' hrun

theorem Leads.mono (h : Leads m S Q) {Q' : β → List Item → Prop} (hQ : ∀ x T, Q x T → Q' x T) :
    Leads m S Q' := by
  intro a hflags hstack x a' hrun
  obtain ⟨hflags', hx⟩ := h a hflags hstack x a' hrun
  exact ⟨hflags', hQ _ _ hx⟩

theorem leads_get {f : Assembly → Build β}
    (h : ∀ a : Assembly, a.flags = {} → a.stack = S → Leads (f a) S Q) : Leads (get >>= f) S Q := by
  intro a hflags hstack x a' hrun
  exact h a hflags hstack a hflags hstack x a' hrun

theorem leads_modify {g : Assembly → Assembly} {Q : PUnit → List Item → Prop}
    (h : ∀ a : Assembly, a.flags = {} → a.stack = S → (g a).flags = {} ∧ Q ⟨⟩ (g a).stack) :
    Leads (modify g) S Q := by
  rintro a hflags hstack x a' ⟨⟩
  exact h a hflags hstack

theorem leads_set {a : Assembly} {Q : PUnit → List Item → Prop} (hflags : a.flags = {})
    (h : Q ⟨⟩ a.stack) : Leads (set a) S Q := by
  rintro b - - x a' ⟨⟩
  exact ⟨hflags, h⟩

end Leads

/-- If the step succeeds then it leaves the stack as it is, and `P` is true of its result. -/
def Yields (m : Build β) (P : β → Prop) : Prop := ∀ S, Leads m S fun x T => T = S ∧ P x

section Yields

variable {m : Build β} {P : β → Prop}

theorem yields_pure {x : β} (h : P x) : Yields (pure x) P := fun _ => leads_pure ⟨rfl, h⟩

theorem Yields.bind {f : β → Build γ} {P' : γ → Prop} (h : Yields m P)
    (hf : ∀ x, P x → Yields (f x) P') : Yields (m >>= f) P' := by
  refine fun S => Leads.bind ((h S).mono ?_)
  rintro x T ⟨rfl, hx⟩
  exact hf x hx T

theorem Yields.mono (h : Yields m P) {P' : β → Prop} (hP : ∀ x, P x → P' x) : Yields m P' :=
  fun S => (h S).mono fun x _ hx => ⟨hx.1, hP x hx.2⟩

/-- What follows a step that leaves the stack as it is. -/
theorem Yields.leads (h : Yields m P) {f : β → Build γ} {S : List Item} {Q : γ → List Item → Prop}
    (hf : ∀ x, P x → Leads (f x) S Q) : Leads (m >>= f) S Q := by
  refine Leads.bind ((h S).mono ?_)
  rintro x T ⟨rfl, hx⟩
  exact hf x hx

theorem yields_make : Yields make fun _ => True := by
  intro S
  refine leads_modify fun a hflags hstack => ?_
  split <;> exact ⟨hflags, hstack, trivial⟩

theorem yields_giveBack : Yields giveBack fun _ => True :=
  fun _ => leads_modify fun _ hflags hstack => ⟨hflags, hstack, trivial⟩

theorem yields_failWhole (cause : Cause) : Yields (failWhole cause : Build β) P :=
  fun _ => leads_get fun _ _ _ => leads_throw _

/-- A check fails, or goes on. -/
theorem yields_check {c : Prop} [Decidable c] {cause : Cause} {f : PUnit → Build β}
    (h : Yields (f ⟨⟩) P) : Yields (if c then failWhole cause >>= f else f ⟨⟩) P := by
  split
  · exact (yields_failWhole cause (P := fun _ => False)).bind fun _ h => h.elim
  · exact h

/-- Checking a part against the limits does nothing but fail, or take note that it has to be
done. -/
theorem yields_checkLimits (n : Node) : Yields (checkLimits n) fun _ => True := by
  have hlast {c : Prop} [Decidable c] {cause : Cause} :
      Yields (if c then failWhole cause else pure ()) fun _ => True := by
    split
    · exact yields_failWhole cause
    · exact yields_pure trivial
  have hweight : Yields (checkWeight n) fun _ => True := by
    intro S
    refine leads_get fun a hflags hstack => ?_
    split
    · exact hlast S
    · refine Leads.bind (leads_set hflags ?_)
      show Leads _ a.stack _
      rw [hstack]
      split
      · refine Leads.bind (leads_modify fun b hb hT => ⟨hb, ?_⟩)
        show Leads _ b.stack _
        rw [hT]
        exact yields_check hlast S
      · exact leads_pure ⟨rfl, trivial⟩
  intro S
  refine leads_get fun a _ _ => ?_
  exact yields_check (hweight.bind fun _ _ => hlast) S

/-- Doing the same with every element of a list. -/
theorem yields_mapM {f : β → Build γ} {R : β → γ → Prop} {xs : List β}
    (h : ∀ x ∈ xs, Yields (f x) (R x)) : Yields (xs.mapM f) (List.Forall₂ R xs) := by
  induction xs with
  | nil =>
    rw [List.mapM_nil]
    exact yields_pure .nil
  | cons x xs ih =>
    rw [List.mapM_cons]
    refine (h x List.mem_cons_self).bind fun y hy => ?_
    refine (ih fun x hx => h x (List.mem_cons_of_mem _ hx)).bind fun ys hys => ?_
    exact yields_pure (.cons hy hys)

theorem yields_forM {f : β → Build PUnit} {xs : List β} (h : ∀ x ∈ xs, Yields (f x) fun _ => True) :
    Yields (xs.forM f) fun _ => True := by
  induction xs with
  | nil => exact yields_pure trivial
  | cons x xs ih =>
    show Yields (f x >>= fun _ => xs.forM f) _
    exact (h x List.mem_cons_self).bind fun _ _ => ih fun x hx => h x (List.mem_cons_of_mem _ hx)

end Yields

/-! ## Parts in the place of others -/

/-- The parts `after` can stand in a choice in the place of the parts `before`. -/
def Replaces (before after : List Node) : Prop :=
  (∀ n ∈ before, n.Good) → (∀ n ∈ after, n.Good) ∧
    ∀ F, (∀ n ∈ before, n.Crisp F) →
      (∀ n ∈ after, n.Crisp F) ∧ (after.map Node.lang).sum = (before.map Node.lang).sum

namespace Replaces

variable {before middle after before' after' : List Node}

theorem refl (parts : List Node) : Replaces parts parts :=
  fun hgood => ⟨hgood, fun _ hcrisp => ⟨hcrisp, rfl⟩⟩

theorem trans (h : Replaces before middle) (h' : Replaces middle after) :
    Replaces before after := by
  intro hgood
  obtain ⟨hgood₁, hsense₁⟩ := h hgood
  obtain ⟨hgood₂, hsense₂⟩ := h' hgood₁
  refine ⟨hgood₂, fun F hcrisp => ?_⟩
  obtain ⟨hcrisp₁, hsum₁⟩ := hsense₁ F hcrisp
  obtain ⟨hcrisp₂, hsum₂⟩ := hsense₂ F hcrisp₁
  exact ⟨hcrisp₂, hsum₂.trans hsum₁⟩

theorem append (h : Replaces before after) (h' : Replaces before' after') :
    Replaces (before ++ before') (after ++ after') := by
  intro hgood
  rw [List.forall_mem_append] at hgood
  obtain ⟨hgood₁, hsense₁⟩ := h hgood.1
  obtain ⟨hgood₂, hsense₂⟩ := h' hgood.2
  refine ⟨List.forall_mem_append.mpr ⟨hgood₁, hgood₂⟩, fun F hcrisp => ?_⟩
  rw [List.forall_mem_append] at hcrisp
  obtain ⟨hcrisp₁, hsum₁⟩ := hsense₁ F hcrisp.1
  obtain ⟨hcrisp₂, hsum₂⟩ := hsense₂ F hcrisp.2
  refine ⟨List.forall_mem_append.mpr ⟨hcrisp₁, hcrisp₂⟩, ?_⟩
  rw [List.map_append, List.map_append, List.sum_append, List.sum_append, hsum₁, hsum₂]

theorem cons (part : Node) (h : Replaces before after) :
    Replaces (part :: before) (part :: after) :=
  (refl [part]).append h

/-- Each run of parts is replaced by a single one. -/
theorem runs {f : β → List Node} {rs : List β}
    (h : List.Forall₂ (fun r n => Replaces (f r) [n]) rs after) :
    Replaces (rs.flatMap f) after := by
  induction h with
  | nil => exact refl []
  | cons hr _ ih => exact hr.append ih

/-- A choice can stand in the place of its parts. -/
theorem choice (parts : List Node) : Replaces parts [.choice parts] := by
  refine fun hgood => ⟨?_, fun F hcrisp => ⟨?_, ?_⟩⟩
  · rintro n hn
    rw [List.mem_singleton.mp hn]
    exact .choice hgood
  · rintro n hn
    rw [List.mem_singleton.mp hn]
    exact .choice hcrisp
  · rw [List.map_singleton, List.sum_singleton, Node.lang_choice]

/-- The parts of a choice can stand in its place. -/
theorem lifted (parts : List Node) : Replaces [.choice parts] parts := by
  refine fun hgood => ⟨(hgood _ (List.mem_singleton_self _)).choice_parts, fun F hcrisp => ⟨?_, ?_⟩⟩
  · exact (hcrisp _ (List.mem_singleton_self _)).choice_parts
  · rw [List.map_singleton, List.sum_singleton, Node.lang_choice]

end Replaces

theorem yields_liftChoices (parts : List Node) : Yields (liftChoices parts) (Replaces parts) := by
  induction parts with
  | nil => exact yields_pure (.refl [])
  | cons part parts ih =>
    unfold liftChoices
    split
    next heq => cases heq
    next inner _ heq =>
      cases heq
      refine yields_giveBack.bind fun _ _ => ih.bind fun more hmore => yields_pure ?_
      exact (Replaces.lifted inner).append hmore
    next heq =>
      cases heq
      exact ih.bind fun more hmore => yields_pure (hmore.cons part)

theorem replaces_dropEmpties (parts : List Node) : Replaces parts (dropEmpties parts) := by
  fun_induction dropEmpties parts with
  | case1 parts ih =>
    refine Replaces.trans (fun hgood => ?_) ih
    refine ⟨fun n hn => hgood n (List.mem_cons_of_mem _ hn), fun F hcrisp => ?_⟩
    refine ⟨fun n hn => hcrisp n (List.mem_cons_of_mem _ hn), ?_⟩
    rw [List.map_cons, List.map_cons, List.map_cons, List.sum_cons, List.sum_cons, List.sum_cons,
      ← add_assoc, add_idem]
  | case2 part parts _ ih => exact ih.cons part
  | case3 => exact .refl []

/-! ## What parts start with -/

/-- The part `node` without the part `lead` that it starts with is `rest`. -/
structure Leaves (lead node rest : Node) : Prop where
  good : node.Good → rest.Good
  sense : node.Good → lead.Good → ∀ F, node.Crisp F → lead.Crisp F →
    rest.Crisp F ∧ node.lang = lead.lang * rest.lang

section Leaves

variable {lead : Node} {parts rests : List Node}

theorem good_of_leaves (h : List.Forall₂ (Leaves lead) parts rests) (hgood : ∀ n ∈ parts, n.Good) :
    ∀ n ∈ rests, n.Good := by
  induction h with
  | nil => exact List.forall_mem_nil _
  | cons h _ ih =>
    rw [List.forall_mem_cons] at hgood ⊢
    exact ⟨h.good hgood.1, ih hgood.2⟩

/-- The words of a choice are those of the common part, followed by those of a choice among what is
left. -/
theorem sum_of_leaves (h : List.Forall₂ (Leaves lead) parts rests) (hgood : ∀ n ∈ parts, n.Good)
    (hlead : lead.Good) {F : Nat → Bool} (hcrisp : ∀ n ∈ parts, n.Crisp F)
    (hleadCrisp : lead.Crisp F) :
    (∀ n ∈ rests, n.Crisp F) ∧ (parts.map Node.lang).sum = lead.lang *
      (rests.map Node.lang).sum := by
  induction h with
  | nil => exact ⟨List.forall_mem_nil _, (mul_zero _).symm⟩
  | cons h _ ih =>
    rw [List.forall_mem_cons] at hgood hcrisp
    obtain ⟨hrest, hlang⟩ := h.sense hgood.1 hlead F hcrisp.1 hleadCrisp
    obtain ⟨hrests, hsum⟩ := ih hgood.2 hcrisp.2
    refine ⟨List.forall_mem_cons.mpr ⟨hrest, hrests⟩, ?_⟩
    rw [List.map_cons, List.map_cons, List.sum_cons, List.sum_cons, hlang, hsum, mul_add]

/-- **What parts start with is factored out**, and what is left of them has been put together
again. -/
theorem Replaces.factor {tail : Node} (hrests : List.Forall₂ (Leaves lead) parts rests)
    (htail : Replaces rests [tail]) (hlead : (∀ n ∈ parts, n.Good) → lead.Good)
    (hcrisp : ∀ F, (∀ n ∈ parts, n.Crisp F) → lead.Crisp F) :
    Replaces parts [.sequence [lead, tail]] := by
  intro hgood
  obtain ⟨htailGood, hsense⟩ := htail (good_of_leaves hrests hgood)
  have hpair {P : Node → Prop} (h : P lead) (h' : ∀ n ∈ [tail], P n) : ∀ n ∈ [lead, tail], P n :=
    List.forall_mem_cons.mpr ⟨h, h'⟩
  refine ⟨?_, fun F hpartsCrisp => ?_⟩
  · rintro n hn
    rw [List.mem_singleton.mp hn]
    exact .sequence (hpair (hlead hgood) htailGood)
  · have hleadCrisp := hcrisp F hpartsCrisp
    obtain ⟨hrestsCrisp, hsum⟩ := sum_of_leaves hrests hgood (hlead hgood) hpartsCrisp hleadCrisp
    obtain ⟨htailCrisp, htailSum⟩ := hsense F hrestsCrisp
    refine ⟨?_, ?_⟩
    · rintro n hn
      rw [List.mem_singleton.mp hn]
      exact .sequence (hpair hleadCrisp htailCrisp)
    · rw [List.map_singleton, List.sum_singleton, Node.lang_sequence, hsum, ← htailSum]
      simp only [List.map_cons, List.map_nil, List.prod_cons, List.prod_nil, List.sum_singleton,
        mul_one]

end Leaves

/-- What is left of a sequence without its first part. -/
theorem leaves_sequence (lead : Node) (parts : List Node) (n : Node)
    (hn : n.lang = (parts.map Node.lang).prod) (hgood : (∀ part ∈ parts, part.Good) → n.Good)
    (hcrisp : ∀ F, (∀ part ∈ parts, part.Crisp F) → n.Crisp F) :
    Leaves lead (.sequence (lead :: parts)) n := by
  refine ⟨fun h => hgood fun part hp => h.sequence_parts part (List.mem_cons_of_mem _ hp),
    fun _ _ F h _ =>
      ⟨hcrisp F fun part hp => h.sequence_parts part (List.mem_cons_of_mem _ hp), ?_⟩⟩
  rw [Node.lang_sequence, List.map_cons, List.prod_cons, hn]

/-- A sequence of parts is an empty part or a single one if there are no more. -/
theorem yields_sequenceOf (lead : Node) (parts : List Node) :
    Yields (match parts with
      | [] => pure .empty
      | [part] => do giveBack; pure part
      | parts => pure (.sequence parts)) (Leaves lead (.sequence (lead :: parts))) := by
  split
  · exact yields_pure (leaves_sequence lead _ _ rfl (fun _ => .empty) fun _ _ => .empty)
  next part =>
    refine yields_giveBack.bind fun _ _ => yields_pure (leaves_sequence lead _ _ ?_ ?_ ?_)
    · rw [List.map_singleton, List.prod_singleton]
    · exact fun h => h part (List.mem_singleton_self _)
    · exact fun F h => h part (List.mem_singleton_self _)
  · exact yields_pure (leaves_sequence lead _ _ (Node.lang_sequence _) .sequence fun _ => .sequence)

/-- What is left of a literal without its first points. -/
theorem leaves_literal (fold : Bool) (points more : List Nat) :
    Leaves (.literal fold points) (.literal fold (points ++ more))
      (if more.isEmpty then .empty else .literal fold more) := by
  refine ⟨fun h => ?_, fun _ _ F h _ => ⟨?_, ?_⟩⟩
  · split
    · exact .empty
    · exact .literal fun p hp => h.literal_points p (List.mem_append_right _ hp)
  · split
    · exact .empty
    · exact .literal fun p hp => h.literal_points p (List.mem_append_right _ hp)
  · rw [Node.lang_literal_append]
    split
    next hnil => rw [List.isEmpty_iff.mp hnil, Node.lang_literal_nil, Node.lang_empty]
    · rfl

/-- What is left of a sequence without the first points of the literal that it starts with. -/
theorem leaves_literal_sequence (fold : Bool) (points more : List Nat) (parts : List Node) :
    Leaves (.literal fold points) (.sequence (.literal fold (points ++ more) :: parts))
      (.sequence (.literal fold more :: parts)) := by
  refine ⟨fun h => ?_, fun _ _ F h _ => ⟨?_, ?_⟩⟩
  · obtain ⟨hliteral, hparts⟩ := List.forall_mem_cons.mp h.sequence_parts
    refine .sequence (List.forall_mem_cons.mpr ⟨.literal fun p hp => ?_, hparts⟩)
    exact hliteral.literal_points p (List.mem_append_right _ hp)
  · obtain ⟨hliteral, hparts⟩ := List.forall_mem_cons.mp h.sequence_parts
    refine .sequence (List.forall_mem_cons.mpr ⟨.literal fun p hp => ?_, hparts⟩)
    exact hliteral.literal_points p (List.mem_append_right _ hp)
  · rw [Node.lang_sequence, Node.lang_sequence, List.map_cons, List.map_cons, List.prod_cons,
      List.prod_cons, Node.lang_literal_append, mul_assoc]

theorem yields_dropLiteral {fold : Bool} {points more : List Nat} {node : Node}
    (h : node.leadingLiteral = (fold, points ++ more)) :
    Yields (dropLiteral points.length node) (Leaves (.literal fold points) node) := by
  unfold Node.leadingLiteral at h
  split at h
  next _ all =>
    cases h
    unfold dropLiteral
    simp only [List.drop_left]
    exact yields_pure (leaves_literal _ _ _)
  next _ all parts =>
    cases h
    unfold dropLiteral
    simp only [List.drop_left]
    split
    next hnil =>
      rw [List.isEmpty_iff.mp hnil, List.append_nil]
      exact yields_giveBack.bind fun _ _ => yields_sequenceOf _ parts
    · exact yields_pure (leaves_literal_sequence _ _ _ _)
  next hliteral hsequence =>
    obtain ⟨rfl, hnil⟩ := Prod.mk.inj h
    obtain ⟨rfl, rfl⟩ := List.append_eq_nil_iff.mp hnil.symm
    have hsame : dropLiteral 0 node = pure node := by
      unfold dropLiteral
      split
      next fold points => exact absurd rfl (hliteral fold points)
      next fold points parts => exact absurd rfl (hsequence fold points parts)
      · rfl
    rw [List.length_nil, hsame]
    refine yields_pure ⟨id, fun _ _ F h _ => ⟨h, ?_⟩⟩
    rw [Node.lang_literal_nil, one_mul]

theorem yields_dropLeading (again : Bool) {lead node : Node} (h : node.leading? = some lead) :
    Yields (dropLeading again node) (Leaves lead node) := by
  have hgive {f : PUnit → Build Node} {P : Node → Prop} (hf : Yields (f ⟨⟩) P) :
      Yields (if again = true then giveBack >>= f else f ⟨⟩) P := by
    split
    · exact yields_giveBack.bind fun _ _ => hf
    · exact hf
  have hwhole (node : Node) : Leaves node node .empty := by
    refine ⟨fun _ => .empty, fun _ _ F _ _ => ⟨.empty, ?_⟩⟩
    rw [Node.lang_empty, mul_one]
  unfold dropLeading
  split
  next first parts =>
    have hlead : lead = first := by
      unfold Node.leading? at h
      split at h
      next heq => cases heq
      · cases h
      next heq =>
        cases heq
        exact (Option.some.inj h).symm
      next hne => exact absurd rfl (hne first parts)
    rw [hlead]
    exact hgive (yields_sequenceOf first parts)
  next hne =>
    have hlead : lead = node := by
      unfold Node.leading? at h
      split at h
      · cases h
      · cases h
      next first parts _ => exact absurd rfl (hne first parts)
      · exact (Option.some.inj h).symm
    rw [hlead]
    exact hgive (yields_make.bind fun _ _ => yields_pure (hwhole node))

end Munch.Pattern
