import Munch.Proofs.Pattern.Plain
import Munch.Proofs.Pattern.Stack

/-!
# Plain patterns as patterns over runes

The reader of patterns over runes puts parts on a stack, and closes sequences and choices as it
comes to bars and parentheses.

* `unionSet`: the set of a class is the union of its ranges.
* `Plain.Fits p F`: in `p`, all letters that are spelled in both cases in a class of their own, and
  only these, are those of which `F` says that they fold. Groups and repetitions are for themselves.
* `Goes t S Q`: if the text `t` can be read to its end with the stack `S`, then `Q` is true of the
  stack.

Results:
* `Plain.built`: reading a plain pattern puts its words on the stack, for an atom as a part, for a
  branch as a row, and for a choice as alternatives and a row.
* **`Plain.parse_lang`**: a plain pattern that can be read has no conditions on positions, and it
  matches its words if it fits.
-/

namespace Munch

open Computability Pattern

/-! ## Classes -/

/-- The union of ranges. -/
def unionSet (ranges : List (Nat × Nat)) : CharSet :=
  ranges.foldl (fun s r => (CharSet.range r.1 r.2).union s) .empty

theorem has_unionSet {ranges : List (Nat × Nat)} (h : ∀ r ∈ ranges, CharSet.AsciiRange r) :
    (unionSet ranges).Ascii ∧ ∀ n, (unionSet ranges).has n = true ↔
      ∃ r ∈ ranges, CharSet.In n r := by
  have hfold (s : CharSet) (hs : s.Ascii) :
      (ranges.foldl (fun s r => (CharSet.range r.1 r.2).union s) s).Ascii ∧
        ∀ n, (ranges.foldl (fun s r => (CharSet.range r.1 r.2).union s) s).has n = true ↔
          s.has n = true ∨ ∃ r ∈ ranges, CharSet.In n r := by
    induction ranges generalizing s with
    | nil => exact ⟨hs, fun n => by simp⟩
    | cons r ranges ih =>
      rw [List.forall_mem_cons] at h
      have hr : (CharSet.range r.1 r.2).Ascii := CharSet.ascii_range h.1
      obtain ⟨hascii, hhas⟩ := ih h.2 _ (hr.union hs)
      refine ⟨hascii, fun n => ?_⟩
      rw [List.foldl_cons, hhas, CharSet.has_union hr hs, CharSet.has_range,
        List.exists_mem_cons_iff, or_comm (a := CharSet.In n _), or_assoc]
  obtain ⟨hascii, hhas⟩ := hfold .empty CharSet.ascii_empty
  refine ⟨hascii, fun n => (hhas n).trans ?_⟩
  rw [CharSet.not_has_empty]
  simp

namespace PlainChar

/-- A text that starts with a plain character starts with no other symbol. -/
theorem cons_ne (c : PlainChar) {d : Char} (hd : isPlain d = false) {s t : Text} :
    (.char c.val :: s : Text) ≠ .char d :: t := by
  intro h
  exact c.ne hd (Symbol.char.inj (List.cons.inj h).1)

theorem readPoint_cons (c : PlainChar) (whole rest : Text) :
    readMember whole (.char c.val :: rest) = .ok (c.point, rest) := by
  unfold readMember
  split
  next h => cases h
  next h => exact absurd h (c.cons_ne (by decide))
  · rfl

/-- No named class starts with a plain character. -/
theorem readItem_cons (c : PlainChar) (whole rest : Text) :
    readItem false whole (.char c.val :: rest) =
      (readRange whole (.char c.val :: rest)).map fun (lo, hi, rest) => (.range lo hi, rest) := by
  have hascii : readAsciiClass false (.char c.val :: rest) = .ok none := by
    unfold readAsciiClass
    split
    next h => exact absurd h (c.cons_ne (by decide))
    · rfl
  have hunicode : readUnicodeClass false (.char c.val :: rest) = .ok none := by
    unfold readUnicodeClass
    split
    next h => exact absurd h (c.cons_ne (by decide))
    · rfl
  have hletter : readLetterClass false (.char c.val :: rest) = none := by
    unfold readLetterClass
    split
    next h => exact absurd h (c.cons_ne (by decide))
    · rfl
  unfold readItem
  rw [hascii]
  simp only [bind, Except.bind, hunicode, hletter]
  cases readRange whole (.char c.val :: rest) with
  | error e => rfl
  | ok r => rfl

end PlainChar

namespace Member

/-- A member starts with a plain character. -/
theorem text_head (m : Member) (rest : Text) :
    ∃ (c : PlainChar) (t : Text), m.text ++ rest = .char c.val :: t := by
  cases m with
  | one c => exact ⟨c, _, rfl⟩
  | range lo hi h => exact ⟨lo, _, rfl⟩

theorem readItem_text (m : Member) (whole : Text) {rest : Text}
    (hrest : ∀ t, rest ≠ .char '-' :: t) :
    readItem false whole (m.text ++ rest) = .ok (.range m.bounds.1 m.bounds.2, rest) := by
  have hrange : readRange whole (m.text ++ rest) = .ok (m.bounds.1, m.bounds.2, rest) := by
    unfold readRange
    cases m with
    | one c =>
      rw [text, List.singleton_append, c.readPoint_cons]
      simp only [bind, Except.bind]
      split
      next next tail => exact absurd rfl (hrest (next :: tail))
      · rfl
    | range lo hi h =>
      have hclosing : (Symbol.char hi.val).is ']' = false := by
        simpa [Symbol.is] using hi.ne (by decide)
      show (readMember whole (.char lo.val :: .char '-' :: .char hi.val :: rest) >>= _) = _
      rw [lo.readPoint_cons]
      simp only [bind, Except.bind, hclosing, Bool.false_eq_true, if_false, hi.readPoint_cons]
      rw [if_neg (Nat.not_lt.mpr h)]
      rfl
  obtain ⟨c, t, hc⟩ := m.text_head rest
  rw [hc] at hrange ⊢
  rw [c.readItem_cons, hrange]
  rfl

theorem readItems_text (m : Member) (ms : List Member) (whole rest : Text) {fuel : Nat}
    (hfuel : ms.length + 1 < fuel) (isFirst : Bool) (s : CharSet) :
    readItems false whole fuel isFirst s (Plain.members (m :: ms) ++ .char ']' :: rest) =
      .ok (((m :: ms).map bounds).foldl (fun s r => (CharSet.range r.1 r.2).union s) s, rest) := by
  -- a member is read, and what follows it is no hyphen
  have hstep (m : Member) (tail : Text) (htail : ∀ t, tail ≠ .char '-' :: t) (fuel : Nat)
      (isFirst : Bool) (s : CharSet) :
      readItems false whole (fuel + 1) isFirst s (m.text ++ tail) =
        readItems false whole fuel false ((CharSet.range m.bounds.1 m.bounds.2).union s) tail := by
    have hitem := m.readItem_text whole htail
    obtain ⟨c, t, hc⟩ := m.text_head tail
    rw [hc] at hitem ⊢
    rw [readItems.eq_def]
    simp only
    split
    next h => exact absurd h (c.cons_ne (by decide))
    · rw [hitem]
      rfl
  obtain ⟨fuel, rfl⟩ : ∃ n, fuel = n + 1 := ⟨fuel - 1, by omega⟩
  induction ms generalizing m fuel isFirst s with
  | nil =>
    obtain ⟨fuel, rfl⟩ : ∃ n, fuel = n + 1 :=
      ⟨fuel - 1, by simp only [List.length_nil] at hfuel; omega⟩
    have hmembers : Plain.members [m] = m.text := List.append_nil _
    rw [hmembers, hstep m _ (by rintro t ⟨⟩)]
    rfl
  | cons m' ms ih =>
    have hmembers : Plain.members (m :: m' :: ms) ++ .char ']' :: rest =
        m.text ++ (Plain.members (m' :: ms) ++ .char ']' :: rest) := by
      rw [Plain.members, List.flatMap_cons, List.append_assoc]
      rfl
    have hnext (t : Text) : Plain.members (m' :: ms) ++ .char ']' :: rest ≠ .char '-' :: t := by
      rw [Plain.members, List.flatMap_cons, List.append_assoc]
      obtain ⟨c, u, hc⟩ := m'.text_head (ms.flatMap Member.text ++ .char ']' :: rest)
      rw [hc]
      exact c.cons_ne (by decide)
    obtain ⟨fuel, rfl⟩ : ∃ n, fuel = n + 1 :=
      ⟨fuel - 1, by simp only [List.length_cons] at hfuel; omega⟩
    rw [hmembers, hstep m _ hnext, ih m' _ _ fuel (by simpa using hfuel)]
    rfl

end Member

theorem Plain.readClass_runes (first : Member) (more : List Member) (rest : Text) :
    Pattern.readClass false ((Plain.set first more).text ++ rest) =
      .ok (unionSet (ranges first more), rest) := by
  have htext : (Plain.set first more).text ++ rest =
      .char '[' :: (members (first :: more) ++ .char ']' :: rest) := by
    rw [text, List.cons_append, List.cons_append, List.append_assoc, List.singleton_append]
  have hmembers : members (first :: more) ++ .char ']' :: rest =
      first.text ++ (members more ++ .char ']' :: rest) := by
    rw [members, List.flatMap_cons, List.append_assoc]
    rfl
  have hlength (ms : List Member) : ms.length ≤ (members ms).length := by
    induction ms with
    | nil => exact Nat.zero_le _
    | cons m ms ih =>
      have hm : 1 ≤ m.text.length := by cases m <;> simp [Member.text]
      rw [members, List.flatMap_cons, List.length_append, List.length_cons, Nat.add_comm]
      exact Nat.add_le_add hm ih
  have hcaret : cutCaret (members (first :: more) ++ .char ']' :: rest) =
      (false, members (first :: more) ++ .char ']' :: rest) := by
    obtain ⟨c, t, hc⟩ := first.text_head (members more ++ .char ']' :: rest)
    rw [hmembers, hc]
    unfold cutCaret
    split
    next h => exact absurd h (c.cons_ne (by decide))
    · rfl
  have hfuel : more.length + 1 < (members (first :: more) ++ .char ']' :: rest).length + 1 := by
    have := hlength (first :: more)
    rw [List.length_cons] at this
    rw [List.length_append, List.length_cons]
    omega
  unfold Pattern.readClass
  rw [htext, List.drop_one, List.tail_cons, hcaret]
  simp only [first.readItems_text more _ rest hfuel]
  rfl

/-! ## Reading to the end -/

/-- If the text can be read to its end then `Q` is true of the stack. -/
def Goes (t : Text) (S : List Pattern.Item) (Q : List Pattern.Item → Prop) : Prop :=
  ∀ (fuel : Nat) (last : Option Text), t.length ≤ fuel →
    Leads (readAll fuel ⟨t, last⟩) S fun _ T => Q T

/-- A text that does not make the repetition before it a lazy one. -/
def Quiet (t : Text) : Prop := ∀ rest, t ≠ .char '?' :: rest

section Going

variable {t : Text} {S : List Pattern.Item} {Q : List Pattern.Item → Prop} {cur : List Node}
  {base : List Pattern.Item}

theorem goes_nil (h : Q S) : Goes [] S Q := by
  rintro (_ | fuel) last -
  · exact leads_pure h
  · exact leads_pure h

theorem Goes.whole (h : Goes (t ++ []) S Q) :
    Leads (readAll t.length { text := t }) S fun _ T => Q T := by
  rw [List.append_nil] at h
  exact h t.length none (Nat.le_refl _)

/-- One thing is read, and then the rest. -/
theorem goes_cons {s : Symbol} (h : ∀ last, Leads (readNext (s :: t) last) S fun rest T =>
    rest.text.length ≤ t.length ∧ Goes rest.text T Q) : Goes (s :: t) S Q := by
  intro fuel last hfuel
  obtain ⟨fuel, rfl⟩ : ∃ n, fuel = n + 1 := ⟨fuel - 1, by rw [List.length_cons] at hfuel; omega⟩
  refine Leads.bind ((h last).mono ?_)
  rintro rest T ⟨hlength, hgoes⟩
  rw [List.length_cons, Nat.add_le_add_iff_right] at hfuel
  exact hgoes fuel rest.repetition (hlength.trans hfuel)

theorem goes_char (c : PlainChar) (hbase : Marked base)
    (h : Goes t (.part (.literal false [c.point]) :: items (melted cur) ++ base) Q) :
    Goes (.char c.val :: t) (items cur ++ base) Q := by
  refine goes_cons fun last => ?_
  unfold readNext
  simp only
  split
  case h_13 =>
    refine Leads.bind (leads_get fun a hflags _ => ?_)
    rw [hflags]
    exact leads_pushNew _ hbase (leads_pure ⟨Nat.le_refl _, h⟩)
  all_goals
    next heq => exact absurd heq (c.ne (by decide))

theorem goes_set (first : Member) (more : List Member) (hbase : Marked base)
    (h : Goes t
      (.part (settle (.set (unionSet (Plain.ranges first more)))) :: items (melted cur) ++ base)
      Q) : Goes ((Plain.set first more).text ++ t) (items cur ++ base) Q := by
  have hclass := Plain.readClass_runes first more t
  have hlength : t.length ≤ (Plain.members (first :: more) ++ [Symbol.char ']'] ++ t).length := by
    rw [List.length_append]
    exact Nat.le_add_left _ _
  rw [Plain.text, List.cons_append, List.cons_append] at hclass ⊢
  refine goes_cons fun last => yields_make.leads fun _ _ => leads_get fun a hflags _ => ?_
  rw [hflags]
  have hread : Yields (Pattern.read (readClass false
      (.char '[' :: (Plain.members (first :: more) ++ [.char ']'] ++ t))))
        fun x => x = (unionSet (Plain.ranges first more), t) := by
    rw [hclass]
    exact yields_pure rfl
  refine hread.leads ?_
  rintro _ rfl
  exact Leads.bind (leads_push _ hbase (leads_pure ⟨hlength, h⟩))

theorem goes_open (ht : Quiet t) (hbase : Marked base)
    (h : Goes t (.group true {} :: (items (melted cur) ++ base)) Q) :
    Goes (.char '(' :: t) (items cur ++ base) Q := by
  refine goes_cons fun last => ?_
  show Leads (readGroup _) _ _
  unfold readGroup
  split
  next heq => exact absurd (List.cons.inj heq).2 (ht _)
  next heq => exact absurd (List.cons.inj heq).2 (ht _)
  next heq => exact absurd (List.cons.inj heq).2 (ht _)
  · refine leads_get fun a hflags _ => ?_
    rw [hflags]
    exact Leads.bind (leads_pushMark _ hbase (leads_pure ⟨Nat.le_refl _, h⟩))

theorem goes_bar {alts : List Node} {floor : List Pattern.Item} {fits : (Nat → Bool) → Prop}
    {L M : Language Rune} (hfloor : Floor floor) (halts : Alts alts fits L) (hrow : Row cur fits M)
    (h : ∀ alts', Alts alts' fits (L + M) → Goes t (opened alts' floor) Q) :
    Goes (.char '|' :: t) (items cur ++ opened alts floor) Q :=
  goes_cons fun _ => Leads.bind (leads_readBar hfloor halts hrow fun alts' halts' =>
    leads_pure ⟨Nat.le_refl _, h alts' halts'⟩)

theorem goes_close {alts outer : List Node} {fits : (Nat → Bool) → Prop} {L M : Language Rune}
    (hbase : Marked base) (halts : Alts alts fits L) (hrow : Row cur fits M)
    (h : ∀ n : Node, n.Good → (∀ F, fits F → n.lang = L + M) →
      Goes t (.part (.capture n) :: items (melted outer) ++ base) Q) :
    Goes (.char ')' :: t) (items cur ++ opened alts (.group true {} :: (items outer ++ base))) Q :=
  goes_cons fun _ => Leads.bind (leads_closeGroup hbase halts hrow fun n hgood hlang =>
    leads_pure ⟨Nat.le_refl _, h n hgood hlang⟩)

/-- An operator that is no counted repetition. -/
theorem leads_repeatPart {wrap : Node → Node} {n : Node} (hwrap : ∀ lazy least most body,
      wrap n ≠ .counted lazy least most body) (ht : Quiet t) (before : Text) (last : Option Text)
    (h : Goes t (.part (wrap n) :: S) Q) :
    Leads (repeatPart (fun _ => wrap) before t last) (.part n :: S) fun rest T =>
      rest.text.length ≤ t.length ∧ Goes rest.text T Q := by
  cases last with
  | some start => exact leads_get fun a _ _ => leads_throw _
  | none =>
    refine leads_get fun a _ _ => Leads.bind (leads_repeatTop wrap ?_)
    split
    next heq => cases heq
    next heq => exact absurd (Option.some.inj heq) (hwrap _ _ _ _)
    · refine leads_pure ?_
      show List.length (Prod.snd _) ≤ _ ∧ Goes (Prod.snd _) _ _
      split
      next rest => exact absurd rfl (ht rest)
      · exact ⟨Nat.le_refl _, h⟩

end Going

/-- The part that a part becomes. -/
def Times.node (n : Node) : Times → Node
  | .once => n
  | .star => .star n
  | .plus => .plus n
  | .option => .option n

theorem goes_times {t : Text} {S : List Pattern.Item} {Q : List Pattern.Item → Prop} {n : Node}
    (times : Times) (ht : Quiet t) (h : Goes t (.part (times.node n) :: S) Q) :
    Goes (times.text ++ t) (.part n :: S) Q := by
  cases times with
  | once => exact h
  | star => exact goes_cons fun last => leads_repeatPart (by rintro _ _ _ _ ⟨⟩) ht _ last h
  | plus => exact goes_cons fun last => leads_repeatPart (by rintro _ _ _ _ ⟨⟩) ht _ last h
  | option => exact goes_cons fun last => leads_repeatPart (by rintro _ _ _ _ ⟨⟩) ht _ last h

/-! ## Patterns -/

/-- What is repeated is never factored out, so that its literals may fold in their own way. -/
def Times.fits (once : (Nat → Bool) → Prop) (F : Nat → Bool) : Times → Prop
  | .once => once F
  | _ => ∃ G, once G

namespace Plain

/-- Literals in the pattern fold as `F` says; those in each group, and those that are repeated, fold
in a way of their own. -/
def Fits : {l : Rank} → Plain l → (Nat → Bool) → Prop
  | _, .char c, F => F c.point = false
  | _, .set first more, F =>
    ∀ fold p, literalOf? (.set (unionSet (ranges first more))) = some (fold, p) → F p = fold
  | _, .group body, _ => ∃ G, body.Fits G
  | _, .last a t, F => t.fits a.Fits F
  | _, .next a t rest, F => t.fits a.Fits F ∧ rest.Fits F
  | _, .only b, F => b.Fits F
  | _, .or b rest, F => b.Fits F ∧ rest.Fits F

/-- No pattern starts with a question mark. -/
theorem quiet_text {l : Rank} (p : Plain l) (t : Text) : Quiet (p.text ++ t) := by
  induction p generalizing t with
  | char c =>
    intro rest h
    exact c.cons_ne (by decide) h
  | set first more => rintro rest ⟨⟩
  | group body ih => rintro rest ⟨⟩
  | last a times ih =>
    rw [text, List.append_assoc]
    exact ih _
  | next a times rest ih ihrest =>
    rw [text, List.append_assoc, List.append_assoc]
    exact ih _
  | only b ih => exact ih t
  | or b rest ih ihrest =>
    rw [text, List.append_assoc]
    exact ih _

/-- What reading a pattern does to the stack. -/
def Built : {l : Rank} → Plain l → Prop
  | .atom, p =>
    ∀ (tail : Text) (cur : List Node) (base : List Pattern.Item) (Q : List Pattern.Item → Prop)
      (fits : (Nat → Bool) → Prop) (L : Language Rune), Marked base → Row cur fits L →
      (∀ n cur', Row cur' fits L → Says n p.Fits (p.words unionSet) → literalOf? n = none →
        Goes tail (.part n :: items cur' ++ base) Q) →
      Goes (p.text ++ tail) (items cur ++ base) Q
  | .branch, p =>
    ∀ (tail : Text) (cur : List Node) (base : List Pattern.Item) (Q : List Pattern.Item → Prop)
      (fits : (Nat → Bool) → Prop) (L : Language Rune), Quiet tail → Marked base → Row cur fits L →
      (∀ cur', Row cur' (fun F => fits F ∧ p.Fits F) (L * p.words unionSet) →
        Goes tail (items cur' ++ base) Q) →
      Goes (p.text ++ tail) (items cur ++ base) Q
  | .choice, p =>
    ∀ (tail : Text) (alts : List Node) (floor : List Pattern.Item) (Q : List Pattern.Item → Prop)
      (fits : (Nat → Bool) → Prop) (L : Language Rune), Quiet tail → Floor floor →
        Alts alts fits L → (∀ alts' cur L' M, Alts alts' (fun F => fits F ∧ p.Fits F) L' →
        Row cur (fun F => fits F ∧ p.Fits F) M → L' + M = L + p.words unionSet →
        Goes tail (items cur ++ opened alts' floor) Q) →
      Goes (p.text ++ tail) (opened alts floor) Q

theorem built_char (c : PlainChar) : Built (.char c) := by
  intro tail cur base Q fits L hbase hrow h
  have hgood : GoodPoint false c.point := ⟨c.point_lt, by rintro ⟨⟩⟩
  refine goes_char c hbase (h _ _ hrow.melted
    ⟨.literal ?_, fun F hF => ⟨.literal ?_, Node.lang_literal_one hgood⟩⟩ rfl)
  · rintro p hp
    rw [List.mem_singleton.mp hp]
    exact hgood
  · rintro p hp
    rw [List.mem_singleton.mp hp]
    exact hF

theorem built_set (first : Member) (more : List Member) : Built (.set first more) := by
  intro tail cur base Q fits L hbase hrow h
  have hascii := (has_unionSet (ranges_ascii first more)).1
  obtain ⟨hgood, hlang⟩ := settle_good (.set hascii)
  refine goes_set first more hbase
    (h _ _ hrow.melted ⟨hgood, fun F hF => ⟨?_, ?_⟩⟩ (literalOf?_settle _))
  · unfold settle
    split
    next fold p hlit =>
      refine .literal fun q hq => ?_
      rw [List.mem_singleton.mp hq]
      exact hF fold p hlit
    · exact .set _
  · rw [hlang, Node.lang_set hascii]
    rfl

theorem built_group {body : Plain .choice} (ih : Built body) : Built (.group body) := by
  intro tail cur base Q fits L hbase hrow h
  rw [text, List.cons_append, List.cons_append, List.append_assoc, List.singleton_append]
  refine goes_open (body.quiet_text _) hbase ?_
  refine ih _ [] _ Q (fun _ => True) 0 (by rintro rest ⟨⟩) (.inr ⟨_, _, _, rfl⟩) (alts_nil _) ?_
  intro alts' cur' L' M halts hbody hsum
  refine goes_close hbase halts hbody fun n hgood hlang => ?_
  refine h _ _ hrow.melted.melted ⟨.capture hgood, ?_⟩ rfl
  rintro F ⟨G, hG⟩
  refine ⟨.capture n, ?_⟩
  rw [Node.lang_capture, hlang G ⟨trivial, hG⟩, hsum, zero_add]
  rfl

/-- An atom and its operator go on top of the row. -/
theorem goes_piece {a : Plain .atom} (ha : Built a) (t : Times) {tail : Text} (htail : Quiet tail)
    {cur : List Node} {base : List Pattern.Item} (hbase : Marked base) {fits : (Nat → Bool) → Prop}
    {L : Language Rune} (hrow : Row cur fits L) {Q : List Pattern.Item → Prop}
    (h : ∀ cur', Row cur' (fun F => fits F ∧ t.fits a.Fits F) (L * t.words (a.words unionSet)) →
      Goes tail (items cur' ++ base) Q) :
    Goes (a.text ++ (t.text ++ tail)) (items cur ++ base) Q := by
  refine ha _ cur base Q fits L hbase hrow fun n cur' hrow' hn hlit =>
    goes_times t htail (h (t.node n :: cur') ?_)
  refine (hrow'.mono fun F hF => hF.1).push (Says.mono ?_ fun F hF => hF.2) ?_
  · cases t with
    | once => exact hn
    | star =>
      refine ⟨.star hn.good, fun F ⟨G, hG⟩ => ⟨.star n, ?_⟩⟩
      rw [Times.node, Node.lang_star, (hn.sense G hG).2]
      rfl
    | plus =>
      refine ⟨.plus hn.good, fun F ⟨G, hG⟩ => ⟨.plus n, ?_⟩⟩
      rw [Times.node, Node.lang_plus, (hn.sense G hG).2]
      rfl
    | option =>
      refine ⟨.option hn.good, fun F ⟨G, hG⟩ => ⟨.option n, ?_⟩⟩
      rw [Times.node, Node.lang_option, (hn.sense G hG).2]
      rfl
  · cases t with
    | once => exact hlit
    | star => rfl
    | plus => rfl
    | option => rfl

/-- **Reading a pattern puts its words on the stack.** -/
theorem built {l : Rank} (p : Plain l) : p.Built := by
  induction p with
  | char c => exact built_char c
  | set first more => exact built_set first more
  | group body ih => exact built_group ih
  | last a t ih =>
    intro tail cur base Q fits L htail hbase hrow h
    rw [text, List.append_assoc]
    exact goes_piece ih t htail hbase hrow h
  | next a t rest ih ihrest =>
    intro tail cur base Q fits L htail hbase hrow h
    rw [text, List.append_assoc, List.append_assoc]
    refine goes_piece ih t (rest.quiet_text tail) hbase hrow fun cur₁ hrow₁ => ?_
    refine ihrest tail cur₁ base Q _ _ htail hbase hrow₁ fun cur₂ hrow₂ => h cur₂ ?_
    rw [mul_assoc] at hrow₂
    exact hrow₂.mono fun F hF => ⟨⟨hF.1, hF.2.1⟩, hF.2.2⟩
  | only b ih =>
    intro tail alts floor Q fits L htail hfloor halts h
    refine ih tail [] _ Q (fun _ => True) 1 htail (marked_opened hfloor alts)
      (row_nil _) fun cur hrow => ?_
    rw [one_mul] at hrow
    exact h alts cur L _ (halts.mono fun F hF => hF.1) (hrow.mono fun F hF => ⟨trivial, hF.2⟩) rfl
  | or b rest ih ihrest =>
    intro tail alts floor Q fits L htail hfloor halts h
    rw [text, List.append_assoc, List.cons_append]
    refine ih _ [] _ Q (fun _ => True) 1 (by rintro t ⟨⟩) (marked_opened hfloor alts) (row_nil _)
      fun cur hrow => ?_
    rw [one_mul] at hrow
    refine goes_bar hfloor (halts.mono fun F (hF : fits F ∧ b.Fits F) => hF.1)
      (hrow.mono fun F hF => ⟨trivial, hF.2⟩) fun alts₁ halts₁ => ?_
    refine ihrest tail alts₁ floor Q _ _ htail hfloor halts₁
      fun alts₂ cur₂ L₂ M halts₂ hrow₂ hsum => ?_
    refine h alts₂ cur₂ L₂ M (halts₂.mono ?_) (hrow₂.mono ?_) ?_
    · exact fun F hF => ⟨⟨hF.1, hF.2.1⟩, hF.2.2⟩
    · exact fun F hF => ⟨⟨hF.1, hF.2.1⟩, hF.2.2⟩
    · rw [hsum, add_assoc]
      rfl

/-- **A plain pattern that can be read has no conditions on positions**, and if it fits then it
matches its words. -/
theorem parse_lang {p : Plain .choice} {x : Regex} (h : Regex.parse false p.text = .ok x) :
    x.Free ∧ ∀ F, p.Fits F → x.lang = p.words unionSet := by
  have hread : Leads (readWhole p.text) [] fun n _ =>
      n.Good ∧ ∀ F, p.Fits F → n.lang = p.words unionSet := by
    refine Leads.bind (Goes.whole (p.built [] [] [] _ (fun _ => True) 0 (by rintro t ⟨⟩) (.inl rfl)
      (alts_nil _) fun alts cur L M halts hrow hsum => goes_nil ?_))
    refine Leads.bind (leads_closeAll (.inl rfl) halts hrow fun n hgood hlang => ?_)
    refine leads_get fun a _ hstack => ?_
    rw [hstack]
    refine leads_pure ⟨hgood, fun F hF => ?_⟩
    rw [hlang F ⟨trivial, hF⟩, hsum, zero_add]
  unfold Regex.parse Node.parse at h
  cases hrun : readPattern.run { pattern := p.text, flags := { fold := false } } with
  | error f =>
    rw [hrun] at h
    cases h
  | ok r =>
    rw [hrun] at h
    cases h
    obtain ⟨-, hgood, hlang⟩ := hread _ rfl rfl r.1 r.2 hrun
    exact ⟨hgood.free, hlang⟩

end Plain

end Munch
