import Mathlib.Data.List.Basic
import Munch.Pattern.Parser
import Munch.Rule.Literal

/-!
# Quotations in patterns

A literal in a rule becomes a group with every character in it that has a meaning escaped. Such a
group is read character by character onto the stack, where it melts into a single literal; closing
the group and the pattern puts that literal onto the stack again and again.

* `Reaches m a x b`: the step `m` leads from the state `a` to `b` with the result `x`, unless it
  puts too much on the stack on the way. That is the only fault there can be.
* `quoting source ps`: the state in which the code points `ps` of a quotation have been read.
* `quotation t`: the group for the text `t`.

Results:
* `Reaches.bind`: steps that follow each other.
* `reaches_readAll_escaped`: an escaped text is read as the code points of the text.
* **`parse_quotation`**: a quotation is read as the literal that it is for, if it is not too long.
-/

namespace Munch.Pattern

variable {β γ : Type}

/-! ## Steps with a known outcome -/

/-- The step leads from one state to another, unless more ends of ranges and literals are put on the
stack on the way than there may be. -/
structure Reaches (m : Build β) (a : Assembly) (x : β) (b : Assembly) : Prop where
  pattern : b.pattern = a.pattern
  ends_le : a.ends ≤ b.ends
  run : a.ends ≤ maxEnds → m a = if b.ends ≤ maxEnds then .ok (x, b)
    else .error ⟨.tooLarge, a.pattern⟩

section Reaches

variable {m : Build β} {a b c : Assembly} {x : β} {y : γ}

/-- A step that takes no notice of the limit. -/
theorem reaches_of_eq (h : m a = .ok (x, b)) (hpattern : b.pattern = a.pattern)
    (hends : b.ends = a.ends) : Reaches m a x b := by
  refine ⟨hpattern, Nat.le_of_eq hends.symm, fun hle => ?_⟩
  rw [h, hends, if_pos hle]

theorem reaches_pure (x : β) (a : Assembly) : Reaches (pure x) a x a := reaches_of_eq rfl rfl rfl

/-- **Steps that follow each other.** The first one that goes beyond the limit makes the fault. -/
theorem Reaches.bind {f : β → Build γ} (h : Reaches m a x b) (h' : Reaches (f x) b y c) :
    Reaches (m >>= f) a y c := by
  refine ⟨h'.pattern.trans h.pattern, Nat.le_trans h.ends_le h'.ends_le, fun hle => ?_⟩
  change (m a >>= fun p => f p.1 p.2) = _
  rw [h.run hle]
  by_cases hb : b.ends ≤ maxEnds
  · rw [if_pos hb, ← h.pattern]
    exact h'.run hb
  · have hends := h'.ends_le
    rw [if_neg hb, if_neg (by omega)]
    rfl

/-- What follows a look at the state. -/
theorem reaches_get {f : Assembly → Build β} (h : Reaches (f a) a x b) :
    Reaches (get >>= f) a x b :=
  (reaches_of_eq rfl rfl rfl : Reaches get a a a).bind h

theorem reaches_modify {g : Assembly → Assembly} (hpattern : (g a).pattern = a.pattern)
    (hends : (g a).ends = a.ends) : Reaches (modify g) a ⟨⟩ (g a) :=
  reaches_of_eq rfl hpattern hends

end Reaches

/-! ## Pushing a literal -/

namespace Assembly

/-- The state with a part taken from the spare ones, or made. -/
def drawn (a : Assembly) : Assembly :=
  if a.spare = 0 then { a with made := a.made + 1 } else { a with spare := a.spare - 1 }

/-- The state with the two topmost literals melted into one, if they fold alike. -/
def molten (a : Assembly) : Assembly :=
  match a.stack with
  | .part (.literal f1 top) :: .part (.literal f2 below) :: rest =>
    if f1 = f2 then
      { a with stack := .part (.literal f2 (below ++ top)) :: rest, spare := a.spare + 1 } else a
  | _ => a

/-- The state with its code points counted, before a literal is put on the stack. -/
def counted (a : Assembly) (points : List Nat) : Assembly :=
  { a with ends := a.ends + points.length }.molten

/-- The state with a literal put on the stack. -/
def topped (a : Assembly) (points : List Nat) : Assembly :=
  { a.counted points with stack := .part (.literal false points) :: (a.counted points).stack }

/-- The pattern is not large enough for its weight to be looked at. -/
structure Light (a : Assembly) : Prop where
  counts : a.counts = 1
  weighing : a.weighing = false
  made : a.made < maxWeight

theorem molten_fields (a : Assembly) :
    a.molten.pattern = a.pattern ∧ a.molten.flags = a.flags ∧ a.molten.made = a.made ∧
      a.molten.ends = a.ends ∧ a.molten.counts = a.counts ∧ a.molten.weighing = a.weighing := by
  unfold molten
  split
  · split <;> exact ⟨rfl, rfl, rfl, rfl, rfl, rfl⟩
  · exact ⟨rfl, rfl, rfl, rfl, rfl, rfl⟩

theorem Light.ends {a : Assembly} (h : a.Light) (n : Nat) : Light { a with ends := n } :=
  ⟨h.counts, h.weighing, h.made⟩

theorem Light.molten {a : Assembly} (h : a.Light) : a.molten.Light := by
  obtain ⟨-, -, hmade, -, hcounts, hweighing⟩ := a.molten_fields
  exact ⟨hcounts.trans h.counts, hweighing.trans h.weighing, hmade ▸ h.made⟩

theorem Light.topped {a : Assembly} (h : a.Light) (points : List Nat) : (a.topped points).Light :=
  have hcounted := (h.ends (a.ends + points.length)).molten
  ⟨hcounted.counts, hcounted.weighing, hcounted.made⟩

end Assembly

section Pushing

variable {a : Assembly}

theorem reaches_make (a : Assembly) : Reaches make a ⟨⟩ a.drawn := by
  have hfields : a.drawn.pattern = a.pattern ∧ a.drawn.ends = a.ends := by
    unfold Assembly.drawn
    split <;> exact ⟨rfl, rfl⟩
  exact reaches_of_eq rfl hfields.1 hfields.2

theorem reaches_giveBack (a : Assembly) : Reaches giveBack a ⟨⟩ { a with spare := a.spare + 1 } :=
  reaches_modify rfl rfl

/-- A part that is made and given back is there for the next one. -/
theorem drawn_giveBack (a : Assembly) :
    ({ a.drawn with spare := a.drawn.spare + 1 } : Assembly).drawn = a.drawn := by
  unfold Assembly.drawn
  cases hspare : a.spare with
  | zero => simp
  | succ k => simp

theorem meltLiterals_eq (a : Assembly) : meltLiterals a = .ok (⟨⟩, a.molten) := by
  unfold Assembly.molten
  change (match a.stack with
    | .part (.literal f1 top) :: .part (.literal f2 below) :: rest =>
      if f1 = f2 then do
        modify fun a => { a with stack := .part (.literal f2 (below ++ top)) :: rest }
        giveBack
      else pure ⟨⟩
    | _ => pure ⟨⟩ : Build PUnit) a = _
  split
  next hstack =>
    simp only [hstack]
    split <;> rfl
  · rfl

theorem reaches_meltLiterals (a : Assembly) : Reaches meltLiterals a ⟨⟩ a.molten := by
  obtain ⟨hpattern, -, -, hends, -⟩ := a.molten_fields
  exact reaches_of_eq (meltLiterals_eq a) hpattern hends

theorem checkWeight_eq (h : a.Light) {n : Node} (hn : countsWith 1 n = 1) :
    checkWeight n a = .ok (⟨⟩, a) := by
  obtain ⟨hcounts, hweighing, hmade⟩ := h
  obtain ⟨pattern, flags, stack, made, spare, ends, counts, weighing⟩ := a
  simp only at hcounts hweighing hmade
  subst hcounts hweighing
  have hlight : ¬maxWeight / 1 ≤ made := by omega
  change (if maxWeight / countsWith 1 n ≤ made then _ else pure ⟨⟩ : Build PUnit) _ = _
  rw [hn, if_neg hlight]
  rfl

/-- The only limit that a light and shallow part can pass is that of literals. -/
theorem checkLimits_eq (h : a.Light) {n : Node} (hn : countsWith 1 n = 1)
    (hheight : n.height ≤ maxHeight) :
    checkLimits n a = if a.ends ≤ maxEnds then .ok (⟨⟩, a) else .error ⟨.tooLarge, a.pattern⟩ := by
  by_cases hends : a.ends ≤ maxEnds
  · change (if maxEnds < a.ends then _ else _ : Build PUnit) a = _
    rw [if_neg (Nat.not_lt.mpr hends), if_pos hends]
    change (checkWeight n a >>= fun p =>
      (if maxHeight < n.height then failWhole .tooDeep else pure ⟨⟩ :
      Build PUnit) p.2) = _
    rw [checkWeight_eq h hn, if_neg (Nat.not_lt.mpr hheight)]
    rfl
  · change (if maxEnds < a.ends then _ else _ : Build PUnit) a = _
    rw [if_pos (Nat.lt_of_not_le hends), if_neg hends]
    rfl

/-- A literal is put on the stack, unless it is one too many. -/
theorem reaches_push (h : a.Light) (points : List Nat) :
    Reaches (push (.literal false points)) a ⟨⟩ (a.topped points) := by
  obtain ⟨hpattern, -, -, hends, -⟩ :=
    Assembly.molten_fields { a with ends := a.ends + points.length }
  have hpattern : (a.topped points).pattern = a.pattern := hpattern
  refine ⟨hpattern, Nat.le_trans (Nat.le_add_right _ _) (Nat.le_of_eq hends.symm), fun _ => ?_⟩
  change (meltLiterals { a with ends := a.ends + points.length } >>= fun p =>
    (put (.part (.literal false points)) >>= fun _ => checkLimits (.literal false points) : Build
      PUnit) p.2) = _
  rw [meltLiterals_eq]
  have hlimits :=
    checkLimits_eq (h.topped points) (n := .literal false points) rfl (show 1 ≤ 1000 by decide)
  rw [hpattern] at hlimits
  exact hlimits

end Pushing

/-! ## The points of a quotation -/

/-- The parts in which the points read so far are held: the last one has a part of its own. -/
def held : List Nat → List Item
  | [] => []
  | [p] => [.part (.literal false [p])]
  | ps => [.part (.literal false [ps.getLastD 0]), .part (.literal false ps.dropLast)]

theorem held_concat {ps : List Nat} (h : ps ≠ []) (p : Nat) :
    held (ps ++ [p]) = [.part (.literal false [p]), .part (.literal false ps)] := by
  match ps, h with
  | q :: ps, _ =>
    have hheld : held (q :: ps ++ [p]) = [.part (.literal false [(q :: ps ++ [p]).getLastD 0]),
        .part (.literal false (q :: ps ++ [p]).dropLast)] := by
      cases ps <;> rfl
    rw [hheld, List.dropLast_concat, List.getLastD_concat]

/-- The state in which the points of a quotation have been read, within the group. -/
def quoting (source : Text) (ps : List Nat) : Assembly where
  pattern := source
  stack := held ps ++ [.group false {}]
  made := min (ps.length + 1) 4
  spare := min (ps.length - 2) 1
  ends := ps.length

section Quoting

variable {source : Text} {ps : List Nat}

theorem light_quoting_drawn (source : Text) (ps : List Nat) : (quoting source ps).drawn.Light := by
  have hmade : (quoting source ps).made ≤ 4 := Nat.min_le_right _ _
  unfold Assembly.drawn
  split
  · exact ⟨rfl, rfl, show (quoting source ps).made + 1 < 3355443 by omega⟩
  · exact ⟨rfl, rfl, show (quoting source ps).made < 3355443 by omega⟩

/-- A point more: from the third one on the two literals before it are melted. -/
theorem quoting_concat (source : Text) (ps : List Nat) (p : Nat) :
    (quoting source ps).drawn.topped [p] = quoting source (ps ++ [p]) := by
  obtain rfl | ⟨qs, q, rfl⟩ := List.eq_nil_or_concat ps
  · rfl
  rw [List.concat_eq_append]
  by_cases hqs : qs = []
  · subst hqs
    rfl
  · have hlength := List.length_pos_of_ne_nil hqs
    have hheld := held_concat hqs q
    have hmore := held_concat (List.concat_ne_nil q qs) p
    have hdrawn : (quoting source (qs ++ [q])).drawn =
        { quoting source (qs ++ [q]) with made := 4, spare := 0 } := by
      unfold Assembly.drawn quoting
      simp only [List.length_append, List.length_singleton]
      split
      · congr 1
        omega
      · congr 1 <;> omega
    rw [hdrawn]
    unfold Assembly.topped Assembly.counted Assembly.molten quoting
    simp only [hheld, hmore, List.cons_append, List.nil_append, if_true, List.length_append,
      List.length_singleton]
    congr 1 <;> omega

theorem reaches_pushLiteral {a : Assembly} (hfold : a.flags.fold = false) (hlight : a.drawn.Light)
    (p : Nat) : Reaches (pushLiteral p) a ⟨⟩ (a.drawn.topped [p]) := by
  refine reaches_get ?_
  rw [hfold]
  exact (reaches_make a).bind (reaches_push hlight [p])

end Quoting

/-! ## Closing -/

/-- The stack below a literal has a group on top, or there is none. -/
def Bare (base : List Item) : Prop :=
  base = [] ∨ ∃ capturing outer rest, base = .group capturing outer :: rest

section Closing

variable {a : Assembly} {ps : List Nat} {base : List Item}

theorem Bare.molten (hbase : Bare base) (hstack : a.stack = base) : a.molten = a := by
  unfold Assembly.molten
  obtain rfl | ⟨capturing, outer, rest, rfl⟩ := hbase
  · rw [hstack]
  · rw [hstack]

/-- A literal that is alone above the last mark is taken off the stack. -/
theorem reaches_takeParts (hbase : Bare base)
    (hstack : a.stack = .part (.literal false ps) :: base) :
    Reaches takeParts a [.literal false ps] { a with stack := base } := by
  have htop : topParts base = ([], base) := by
    obtain rfl | ⟨capturing, outer, rest, rfl⟩ := hbase <;> rfl
  refine reaches_of_eq ?_ rfl rfl
  change Except.ok ((topParts a.stack).1, ({ a with stack := (topParts a.stack).2 } : Assembly)) = _
  rw [hstack, topParts, htop]
  rfl

/-- A literal that was taken off the stack is put back, and counted once more. -/
theorem reaches_push_again (h : a.Light) (hbase : Bare base)
    (hstack : a.stack = .part (.literal false ps) :: base) :
    Reaches (push (.literal false ps)) { a with stack := base } ⟨⟩
      { a with ends := a.ends + ps.length } := by
  have hpush := reaches_push (a := { a with stack := base }) ⟨h.counts, h.weighing, h.made⟩ ps
  rw [Assembly.topped, Assembly.counted, hbase.molten rfl, ← hstack] at hpush
  exact hpush

theorem reaches_closeChoice (h : a.Light) (hbase : Bare base)
    (hstack : a.stack = .part (.literal false ps) :: base) :
    Reaches closeChoice a ⟨⟩ { a with ends := a.ends + ps.length } := by
  refine (reaches_takeParts hbase hstack).bind ?_
  exact (reaches_pure (Node.literal false ps) _).bind (reaches_push_again h hbase hstack)

theorem reaches_closeSequence (h : a.Light) (hbase : Bare base)
    (hstack : a.molten.stack = .part (.literal false ps) :: base) :
    Reaches closeSequence a ⟨⟩ { a.molten with ends := a.molten.ends + ps.length } := by
  refine (reaches_meltLiterals a).bind ?_
  exact (reaches_takeParts hbase hstack).bind (reaches_push_again h.molten hbase hstack)

/-- Closing what holds a single literal counts it twice more. -/
theorem reaches_closeAll (h : a.Light) (hbase : Bare base)
    (hstack : a.molten.stack = .part (.literal false ps) :: base) :
    Reaches closeAll a ⟨⟩ { a.molten with ends := a.molten.ends + ps.length + ps.length } := by
  have hswap : Reaches swapBar { a.molten with ends := a.molten.ends + ps.length } false
      { a.molten with ends := a.molten.ends + ps.length } := by
    refine reaches_get ?_
    simp only [hstack]
    obtain rfl | ⟨capturing, outer, rest, rfl⟩ := hbase <;> exact reaches_pure _ _
  refine (reaches_closeSequence h hbase hstack).bind (hswap.bind ?_)
  exact reaches_closeChoice (h.molten.ends _) hbase hstack

end Closing

/-! ## Reading a quotation -/

section Reading

variable {c : Char} {rest : Text}

/-- A character without a meaning is read as itself. -/
theorem readNext_plain (h : Rule.isMeta c = false) (rest : Text) (last : Option Text) :
    readNext (.char c :: rest) last = (do pushLiteral c.toNat; pure { text := rest }) := by
  unfold readNext
  simp only
  split
  case h_13 => rfl
  all_goals exact absurd h (by decide)

/-- A character with a meaning stands for itself behind a backslash. -/
structure Escapes (c : Char) (whole rest : Text) : Prop where
  next : ∀ last, readNext whole last = readEscaped whole
  unicodeClass : readUnicodeClass false whole = .ok none
  letterClass : readLetterClass false whole = none
  escape : readEscape whole = .ok (c.toNat, rest)

theorem escapes_meta (h : Rule.isMeta c = true) (rest : Text) :
    Escapes c (.char '\\' :: .char c :: rest) rest := by
  have hmem : c ∈ ['\\', '.', '+', '*', '?', '(', ')', '|', '[', ']', '\x7b', '\x7d', '^', '$'] :=
    List.contains_iff_mem.mp h
  simp only [List.mem_cons, List.not_mem_nil, or_false] at hmem
  rcases hmem with rfl | rfl | rfl | rfl | rfl | rfl | rfl | rfl | rfl | rfl | rfl | rfl | rfl | rfl
  all_goals exact ⟨fun _ => rfl, rfl, rfl, rfl⟩

theorem reaches_read {r : Reading β} {x : β} (h : r = .ok x) (a : Assembly) :
    Reaches (read r) a x a := by
  refine reaches_of_eq ?_ rfl rfl
  rw [read, h]
  rfl

/-- A part that is made and given back makes no difference to the next literal. -/
theorem reaches_readEscaped {whole : Text} (h : Escapes c whole rest) (source : Text)
    (ps : List Nat) :
    Reaches (readEscaped whole) (quoting source ps) { text := rest }
      (quoting source (ps ++ [c.toNat])) := by
  have hflags : (quoting source ps).drawn.flags.fold = false := by
    unfold Assembly.drawn
    split <;> rfl
  have hsame := drawn_giveBack (quoting source ps)
  have hliteral := reaches_pushLiteral
    (a := { (quoting source ps).drawn with spare := (quoting source ps).drawn.spare + 1 }) hflags
    (hsame ▸ light_quoting_drawn source ps) c.toNat
  rw [hsame, quoting_concat] at hliteral
  refine reaches_get ((reaches_make _).bind ?_)
  refine (reaches_read h.unicodeClass _).bind ?_
  rw [show (quoting source ps).flags.fold = false from rfl, h.letterClass]
  refine (reaches_giveBack _).bind ((reaches_read h.escape _).bind ?_)
  exact hliteral.bind (reaches_pure _ _)

theorem reaches_readNext_plain (h : Rule.isMeta c = false) (rest : Text) (source : Text)
    (ps : List Nat) (last : Option Text) :
    Reaches (readNext (.char c :: rest) last) (quoting source ps) { text := rest }
      (quoting source (ps ++ [c.toNat])) := by
  have hliteral :=
    reaches_pushLiteral (a := quoting source ps) rfl (light_quoting_drawn source ps) c.toNat
  rw [quoting_concat] at hliteral
  rw [readNext_plain h]
  exact hliteral.bind (reaches_pure _ _)

/-- The code points of a text. -/
def pointsOf (s : List Char) : List Nat := s.map Char.toNat

theorem escapeMeta_cons (c : Char) (s : List Char) : Rule.escapeMeta ((c :: s).map .char) =
    (if Rule.isMeta c then [.char '\\', .char c] else [.char c]) ++ Rule.escapeMeta (s.map .char) :=
      rfl

/-- **An escaped text is read as the code points of the text**, whatever is read behind it. The
induction is on the text; each character takes one step, with a backslash before it or without. -/
theorem reaches_readAll_escaped {source : Text} {b : Assembly} (s : List Char) (ps : List Nat)
    (htail : ∀ fuel, rest.length ≤ fuel →
      Reaches (readAll fuel { text := rest }) (quoting source (ps ++ pointsOf s)) ⟨⟩ b) {fuel : Nat}
    (hfuel : (Rule.escapeMeta (s.map .char) ++ rest).length ≤ fuel) :
    Reaches (readAll fuel { text := Rule.escapeMeta (s.map .char) ++ rest })
      (quoting source ps) ⟨⟩ b := by
  induction s generalizing ps fuel with
  | nil =>
    rw [pointsOf, List.map_nil, List.append_nil] at htail
    exact htail fuel hfuel
  | cons c s ih =>
    have hnext : ∀ fuel, rest.length ≤ fuel →
        Reaches (readAll fuel { text := rest }) (quoting source (ps ++ [c.toNat] ++ pointsOf s))
          ⟨⟩ b := by
      rw [List.append_assoc]
      exact htail
    rw [escapeMeta_cons, List.append_assoc] at hfuel ⊢
    by_cases hmeta : Rule.isMeta c = true
    · rw [if_pos hmeta] at hfuel ⊢
      obtain _ | fuel := fuel
      · exact absurd hfuel (Nat.not_succ_le_zero _)
      have hescapes := escapes_meta hmeta (Rule.escapeMeta (s.map .char) ++ rest)
      have hread := reaches_readEscaped hescapes source ps
      rw [← hescapes.next none] at hread
      exact hread.bind (ih _ hnext (Nat.le_of_succ_le (Nat.le_of_succ_le_succ hfuel)))
    · rw [if_neg hmeta] at hfuel ⊢
      obtain _ | fuel := fuel
      · exact absurd hfuel (Nat.not_succ_le_zero _)
      have hread :=
        reaches_readNext_plain (eq_false_of_ne_true hmeta) (Rule.escapeMeta (s.map .char) ++ rest)
          source ps none
      exact hread.bind (ih _ hnext (Nat.le_of_succ_le_succ hfuel))

/-- The group that is made of a literal. -/
def quotation (s : List Char) : Text :=
  Text.ofString "(?:" ++ Rule.escapeMeta (s.map .char) ++ [.char ')']

/-- The group is opened before anything else is on the stack. -/
theorem reaches_opening (source rest : Text) (last : Option Text) :
    Reaches (readNext (Text.ofString "(?:" ++ rest) last) { pattern := source } { text := rest }
      (quoting source []) := by
  have hopening : readNext (Text.ofString "(?:" ++ rest) last = (do
      let a ← get
      pushMark (.group false (← get).flags)
      modify fun b => { b with flags := a.flags }
      pure { text := rest }) := rfl
  have hlight : (quoting source []).Light := ⟨rfl, rfl, show 1 < 3355443 by decide⟩
  have hlimits : Reaches (checkLimits .empty) (quoting source []) ⟨⟩ (quoting source []) := by
    refine ⟨rfl, Nat.le_refl _, fun _ => ?_⟩
    exact checkLimits_eq hlight (n := .empty) rfl (show 1 ≤ 1000 by decide)
  have hput : Reaches (put (.group false {})) { pattern := source, made := 1 } ⟨⟩
      (quoting source []) :=
    reaches_of_eq rfl rfl rfl
  have hmark : Reaches (pushMark (.group false {})) { pattern := source } ⟨⟩ (quoting source []) :=
    (reaches_make _).bind ((reaches_meltLiterals _).bind (hput.bind hlimits))
  rw [hopening]
  exact reaches_get (reaches_get (hmark.bind ((reaches_modify rfl rfl).bind (reaches_pure _ _))))

end Reading

/-! ## The whole pattern -/

section Whole

variable {source : Text} {ps : List Nat}

theorem quoting_molten (source : Text) (h : ps ≠ []) :
    (quoting source ps).molten.stack = [.part (.literal false ps), .group false {}] := by
  obtain rfl | ⟨qs, q, rfl⟩ := List.eq_nil_or_concat ps
  · exact absurd rfl h
  rw [List.concat_eq_append]
  by_cases hqs : qs = []
  · subst hqs
    rfl
  · unfold Assembly.molten quoting
    simp only [held_concat hqs, List.cons_append, List.nil_append, if_true]

/-- The state behind the group: the literal was counted when it was read, twice when the group was
closed, and once more when it was put in the place of the group. -/
def grouped (source : Text) (ps : List Nat) : Assembly :=
  { (quoting source ps).molten with
    stack := [.part (.literal false ps)], flags := {}, ends := 4 * ps.length }

theorem light_quoting (source : Text) (ps : List Nat) : (quoting source ps).Light := by
  have hmade : (quoting source ps).made ≤ 4 := Nat.min_le_right _ _
  exact ⟨rfl, rfl, show (quoting source ps).made < 3355443 by omega⟩

theorem reaches_closeGroup (source : Text) (h : ps ≠ []) :
    Reaches closeGroup (quoting source ps) ⟨⟩ (grouped source ps) := by
  have hstack := quoting_molten source h
  have hlight := light_quoting source ps
  obtain ⟨-, -, -, hends, -⟩ := (quoting source ps).molten_fields
  have hbase : Bare [.group false {}] := .inr ⟨_, _, _, rfl⟩
  refine (reaches_closeAll hlight hbase hstack).bind (reaches_get ?_)
  simp only [hstack]
  refine (reaches_modify rfl rfl).bind ?_
  have hagain := reaches_push_again (a := { (quoting source ps).molten with
    stack := [.part (.literal false ps)], flags := {}, ends := 3 * ps.length })
    ⟨hlight.molten.counts, hlight.molten.weighing, hlight.molten.made⟩ (.inl rfl) rfl
  have hthrice : (quoting source ps).molten.ends + ps.length + ps.length = 3 * ps.length := by
    rw [hends]
    show ps.length + ps.length + ps.length = 3 * ps.length
    omega
  have hfour : 3 * ps.length + ps.length = 4 * ps.length := by omega
  simp only [hfour] at hagain
  simp only [hthrice]
  exact hagain

/-- The state when the whole pattern has been read and closed. -/
def closed (source : Text) (ps : List Nat) : Assembly :=
  { grouped source ps with ends := 6 * ps.length }

theorem reaches_closeWhole (source : Text) (ps : List Nat) :
    Reaches closeAll (grouped source ps) ⟨⟩ (closed source ps) := by
  have hlight := (light_quoting source ps).molten
  have hclose :=
    reaches_closeAll (a := grouped source ps) ⟨hlight.counts, hlight.weighing, hlight.made⟩
      (.inl rfl) rfl
  have hsix : (grouped source ps).molten.ends + ps.length + ps.length = 6 * ps.length := by
    show 4 * ps.length + ps.length + ps.length = 6 * ps.length
    omega
  rw [hsix] at hclose
  exact hclose

/-- Nothing more is read behind the last symbol. -/
theorem reaches_readAll_nil (fuel : Nat) (a : Assembly) :
    Reaches (readAll fuel { text := [] }) a ⟨⟩ a := by
  cases fuel <;> exact reaches_pure _ _

theorem reaches_readWhole {s : List Char} (h : s ≠ []) :
    Reaches (readWhole (quotation s)) { pattern := quotation s } (.literal false (pointsOf s))
      (closed (quotation s) (pointsOf s)) := by
  have hne : pointsOf s ≠ [] := fun hnil => h (List.map_eq_nil_iff.mp hnil)
  have htail (fuel : Nat) (hfuel : [Symbol.char ')'].length ≤ fuel) :
      Reaches (readAll fuel { text := [.char ')'] }) (quoting (quotation s) ([] ++ pointsOf s)) ⟨⟩
        (grouped (quotation s) (pointsOf s)) := by
    obtain _ | fuel := fuel
    · exact absurd hfuel (Nat.not_succ_le_zero _)
    have hclose : Reaches (readNext [.char ')'] none) (quoting (quotation s) (pointsOf s))
        { text := [] } (grouped (quotation s) (pointsOf s)) :=
      (reaches_closeGroup _ hne).bind (reaches_pure _ _)
    exact hclose.bind (reaches_readAll_nil _ _)
  have hbody := reaches_readAll_escaped s [] htail (Nat.le_add_right _ 2)
  have hwhole : Reaches (readAll (quotation s).length { text := quotation s })
      { pattern := quotation s } ⟨⟩ (grouped (quotation s) (pointsOf s)) := by
    have hopening :=
      reaches_opening (quotation s) (Rule.escapeMeta (s.map .char) ++ [.char ')']) none
    have hlength : (quotation s).length =
        (Rule.escapeMeta (s.map .char) ++ [Symbol.char ')']).length + 2 + 1 := by
      simp only [quotation, List.length_append, List.length_singleton]
      show 3 + _ + 1 = _
      omega
    rw [hlength]
    have hassoc : quotation s = Text.ofString "(?:" ++
        (Rule.escapeMeta (s.map .char) ++ [.char ')']) :=
      List.append_assoc _ _ _
    rw [← hassoc] at hopening
    exact hopening.bind hbody
  refine hwhole.bind ((reaches_closeWhole _ _).bind (reaches_get ?_))
  exact reaches_pure _ _

/-- **A quotation is read as the literal that it is for**, unless it is so long that putting it onto
the stack six times is too much. -/
theorem parse_quotation {s : List Char} (h : s ≠ []) : Node.parse false (quotation s) =
    if 6 * s.length ≤ maxEnds then .ok (.literal false (pointsOf s))
      else .error ⟨.tooLarge, quotation s⟩ := by
  have hrun := (reaches_readWhole h).run (Nat.zero_le _)
  have hends : (closed (quotation s) (pointsOf s)).ends = 6 * s.length := by
    show 6 * (pointsOf s).length = 6 * s.length
    rw [pointsOf, List.length_map]
  rw [hends] at hrun
  change (readWhole (quotation s) { pattern := quotation s }).map (·.1) = _
  rw [hrun]
  split <;> rfl

end Whole

end Munch.Pattern
