import Munch.Proofs.RuleFile.Written

/-!
# Reading the entries of a rule file

A line is read into the entry that was written there, whatever its layout is, and applying what was
read makes the calls of the entry.

* `callAll`: makes calls up to the first that fails.
* `Reads`: what there is to know about a trimmed line.

Results:
* `Directive.parse_words`: directives are read from their words.
* `splitAt_textOf`: a pattern of closed parts is cut off where the space behind it starts.
* `Declared.reads`, `Ruled.reads`: a line makes the calls of its entry.
-/

namespace Munch

/-- Directives are read from their words, and then what follows them. -/
theorem Directive.parse_append (ds : List Directive) (rest : List Text) :
    Directive.parse (ds.flatMap Directive.words ++ rest) =
      (Directive.parse rest).map (ds ++ ·) := by
  induction ds with
  | nil =>
    rw [List.flatMap_nil, List.nil_append]
    cases parse rest <;> rfl
  | cons d ds ih =>
    have hmore : parse ((d :: ds).flatMap words ++ rest) =
        (parse (ds.flatMap words ++ rest)).map (d :: ·) := by
      rw [List.flatMap_cons, List.append_assoc]
      cases d with
      | skip => rw [words, List.singleton_append, parse.eq_def]; rfl
      | echo => rw [words, List.singleton_append, parse.eq_def]; rfl
      | emit name => rfl
      | begin state => rfl
    rw [hmore, ih]
    cases parse rest <;> rfl

/-- Directives are read from their words. -/
theorem Directive.parse_words (ds : List Directive) :
    Directive.parse (ds.flatMap Directive.words) = .ok ds := by
  have h := parse_append ds []
  rw [List.append_nil] at h
  rw [h]
  exact congrArg Except.ok (List.append_nil ds)

namespace RuleFile

/-! ## Patterns -/

theorem splitAt_escape (quoted inClass : Bool) (s : Symbol) (t : Text) :
    splitAt quoted inClass (.char '\\' :: s :: t) =
      (splitAt quoted inClass t).map (.char '\\' :: s :: ·) id := rfl

/-- A symbol that is no space, or stands in quotes or in a class, belongs to the pattern. -/
theorem splitAt_symbol {quoted inClass : Bool} {s : Symbol} (hs : s.is '\\' = false)
    (hgap : ((s.is ' ' || s.is '\t') && !quoted && !inClass) = false) {quoted' inClass' : Bool}
    (hquoted : (if s.is '"' && !inClass then !quoted else quoted) = quoted')
    (hclass : (if s.is '[' && !quoted' then true
      else if s.is ']' && !quoted' then false else inClass) = inClass') (t : Text) :
    splitAt quoted inClass (s :: t) = (splitAt quoted' inClass' t).map (s :: ·) id := by
  subst hquoted
  subst hclass
  rw [splitAt.eq_def]
  simp only [hs, hgap]
  rfl

/-- Items stay inside of what they stand in. -/
theorem splitAt_items (inClass : Bool) {body : List Item}
    (h : body.all (Item.fits (if inClass then ']' else '"')) = true) (t : Text) :
    splitAt (!inClass) inClass (body.flatMap Item.text ++ t) =
      (splitAt (!inClass) inClass t).map (body.flatMap Item.text ++ ·) id := by
  induction body with
  | nil => rfl
  | cons item body ih =>
    obtain ⟨hitem, hbody⟩ := Bool.and_eq_true_iff.mp h
    have hrest := ih hbody
    rw [List.flatMap_cons, List.append_assoc]
    cases item with
    | escape s =>
      show splitAt _ _ (.char '\\' :: s :: (body.flatMap Item.text ++ t)) = _
      rw [splitAt_escape, hrest]
      rfl
    | symbol s =>
      simp only [Item.fits, Bool.and_eq_true, Bool.not_eq_true'] at hitem
      obtain ⟨hescape, hclose⟩ := hitem
      have hstep : splitAt (!inClass) inClass (s :: (body.flatMap Item.text ++ t)) =
          (splitAt (!inClass) inClass (body.flatMap Item.text ++ t)).map (s :: ·) id := by
        cases inClass with
        | false => exact splitAt_symbol hescape (by simp) (by simpa using hclose) (by simp) _
        | true =>
          exact splitAt_symbol hescape (by simp) (by simp)
            (by simp [show s.is ']' = false from hclose]) _
      show splitAt _ _ (s :: (body.flatMap Item.text ++ t)) = _
      rw [hstep, hrest]
      rfl

/-- A closed part belongs to the pattern. -/
theorem splitAt_part {p : Part} (h : p.fits = true) (t : Text) :
    splitAt false false (p.text ++ t) = (splitAt false false t).map (p.text ++ ·) id := by
  cases p with
  | symbol s =>
    simp only [Part.fits, Bool.and_eq_true, Bool.not_eq_true'] at h
    obtain ⟨⟨⟨⟨hescape, hquote⟩, hopen⟩, hblank⟩, htab⟩ := h
    exact splitAt_symbol hescape (by simp [hblank, htab]) (by simp [hquote]) (by simp [hopen]) t
  | escape s => exact splitAt_escape false false s t
  | literal body =>
    have hopen : splitAt false false (.char '"' :: (body.flatMap Item.text ++ .char '"' :: t)) =
        (splitAt true false (body.flatMap Item.text ++ .char '"' :: t)).map (.char '"' :: ·) id :=
      splitAt_symbol rfl rfl rfl rfl _
    have hclose : splitAt true false (.char '"' :: t) =
        (splitAt false false t).map (.char '"' :: ·) id :=
      splitAt_symbol rfl rfl rfl rfl t
    have hbody := splitAt_items false h (.char '"' :: t)
    rw [Bool.not_false, hclose] at hbody
    rw [Part.text, List.cons_append, List.append_assoc, List.singleton_append, hopen, hbody]
    simp [Prod.map]
  | cls body =>
    have hopen : splitAt false false (.char '[' :: (body.flatMap Item.text ++ .char ']' :: t)) =
        (splitAt false true (body.flatMap Item.text ++ .char ']' :: t)).map (.char '[' :: ·) id :=
      splitAt_symbol rfl rfl rfl rfl _
    have hclose : splitAt false true (.char ']' :: t) =
        (splitAt false false t).map (.char ']' :: ·) id :=
      splitAt_symbol rfl rfl rfl rfl t
    have hbody := splitAt_items true h (.char ']' :: t)
    rw [Bool.not_true, hclose] at hbody
    rw [Part.text, List.cons_append, List.append_assoc, List.singleton_append, hopen, hbody]
    simp [Prod.map]

/-- **A pattern of closed parts is cut off where the space behind it starts.** -/
theorem splitAt_textOf {parts : List Part} (h : ∀ p ∈ parts, p.fits = true) (g : Gap) (t : Text) :
    splitAt false false (textOf parts ++ (g.text ++ t)) = (textOf parts, g.text ++ t) := by
  induction parts with
  | nil =>
    show splitAt false false (g.first.symbol :: (Pad.text g.rest ++ t)) = _
    rw [splitAt.eq_def]
    cases hg : g.first <;> simp [Space.symbol, Symbol.is, Gap.text, hg, textOf]
  | cons p parts ih =>
    have hrest := ih fun p' hp' => h p' (List.mem_cons_of_mem _ hp')
    rw [textOf, List.flatMap_cons, List.append_assoc, splitAt_part (h p List.mem_cons_self)]
    rw [textOf] at hrest
    rw [hrest]
    rfl

/-! ## Words with gaps -/

theorem gapped_cons (gaps : Nat → Gap) (t : Text) (ts : List Text) :
    gapped gaps (t :: ts) = (gaps 0).text ++ (t ++ gapped (fun i => gaps (i + 1)) ts) := by
  rw [gapped, List.append_assoc]

/-- Words with gaps between them are read. -/
theorem words_gapped {ts : List Text} (h : ∀ t ∈ ts, t.IsWord) {c : Text} (hc : c.IsWord)
    (gaps : Nat → Gap) : Text.words (c ++ gapped gaps ts) = c :: ts := by
  induction ts generalizing c gaps with
  | nil => rw [gapped, List.append_nil, Text.words_word hc]
  | cons t ts ih =>
    have hrest := ih (fun t' ht' => h t' (List.mem_cons_of_mem _ ht')) (h t List.mem_cons_self)
      fun i => gaps (i + 1)
    rw [gapped_cons, ← List.append_assoc,
      Text.words_gap hc (gaps 0).blank_text (gaps 0).text_ne_nil, hrest]

/-- Texts with gaps between them end as the last of them does. -/
theorem getLast?_gapped {ts : List Text}
    (h : ∀ t ∈ ts, t ≠ [] ∧ ∀ s ∈ t.getLast?, s.isBlank = false) {c : Text} (hc : c ≠ [])
    (hlast : ∀ s ∈ c.getLast?, s.isBlank = false) (gaps : Nat → Gap) :
    ∀ s ∈ (c ++ gapped gaps ts).getLast?, s.isBlank = false := by
  induction ts generalizing c gaps with
  | nil => rwa [gapped, List.append_nil]
  | cons t ts ih =>
    obtain ⟨hne, ht⟩ := h t List.mem_cons_self
    have hrest := ih (fun t' ht' => h t' (List.mem_cons_of_mem _ ht')) hne ht fun i => gaps (i + 1)
    rw [gapped_cons, ← List.append_assoc, List.getLast?_append_of_ne_nil _ (by simp [hne])]
    exact hrest

/-- A line is trimmed, if it goes on behind its front or the front is trimmed. -/
theorem trimmed_gapped {ts : List Text} (h : ∀ t ∈ ts, t ≠ [] ∧ ∀ s ∈ t.getLast?, s.isBlank = false)
    {c : Text} (hc : c ≠ []) (hfirst : ∀ s ∈ c.head?, s.isBlank = false)
    (hlast : ts = [] → ∀ s ∈ c.getLast?, s.isBlank = false) (gaps : Nat → Gap) :
    (c ++ gapped gaps ts).Trimmed := by
  cases ts with
  | nil =>
    rw [gapped, List.append_nil]
    exact ⟨hfirst, hlast rfl⟩
  | cons t ts =>
    obtain ⟨hne, ht⟩ := h t List.mem_cons_self
    have hend :=
      getLast?_gapped (fun t' ht' => h t' (List.mem_cons_of_mem _ ht')) hne ht fun i => gaps (i + 1)
    rw [gapped_cons, ← List.append_assoc]
    refine ⟨fun s hs => hfirst s ?_, fun s hs => hend s ?_⟩
    · rwa [List.append_assoc, List.head?_append_of_ne_nil _ hc] at hs
    · rwa [List.getLast?_append_of_ne_nil _ (by simp [hne])] at hs

/-! ## Calls -/

/-- Makes calls up to the first that fails. -/
def callAll : List Call → DirectedLexer → Except Error DirectedLexer
  | [], lx => .ok lx
  | s :: calls, lx =>
    match s.answer lx with
    | some e => .error e
    | none => callAll calls (s.apply lx)

theorem call_append (xs ys : List (Nat × Call)) (lx : DirectedLexer) :
    call (xs ++ ys) lx = (call xs lx).bind (call ys) := by
  induction xs generalizing lx with
  | nil => rfl
  | cons x xs ih =>
    obtain ⟨n, s⟩ := x
    rw [List.cons_append, call, call]
    cases s.answer lx with
    | some e => rfl
    | none => exact ih (s.apply lx)

/-- The calls of one line. -/
theorem call_line (n : Nat) (calls : List Call) (lx : DirectedLexer) :
    call (calls.map (n, ·)) lx = (callAll calls lx).mapError (.inLine n) := by
  induction calls generalizing lx with
  | nil => rfl
  | cons s calls ih =>
    rw [List.map_cons, call, callAll]
    cases s.answer lx with
    | some e => rfl
    | none => exact ih (s.apply lx)

theorem setAll_eq (names : List Text) (lx : DirectedLexer) :
    setAll names lx = callAll (names.map fun name => .option name true) lx := by
  induction names generalizing lx with
  | nil => rfl
  | cons name names ih =>
    rw [setAll, List.map_cons, callAll, Setting.answer, Setting.apply]
    cases lx.setOption name true with
    | error e => rfl
    | ok lx' => exact ih lx'

theorem declareAll_eq (c : StateClass) (names : List Text) (lx : DirectedLexer) :
    .ok (declareAll c names lx) = callAll (names.map fun name => .declare name c) lx := by
  induction names generalizing lx with
  | nil => rfl
  | cons name names ih => exact ih (lx.declare name c)

theorem declareTokens_eq (names : List Text) (lx : DirectedLexer) :
    .ok (names.foldl (fun lx name => (lx.declareToken name).2) lx) =
      callAll (names.map fun name => .token name) lx := by
  induction names generalizing lx with
  | nil => rfl
  | cons name names ih => exact ih (lx.declareToken name).2

/-! ## Entries -/

namespace Identifier

theorem isWord (i : Identifier) : i.text.IsWord := i.isIdentifier.isWord

/-- A name is no keyword. -/
theorem text_ne (i : Identifier) {keyword : Text} (h : keyword.head? = some (.char '%')) :
    i.text ≠ keyword := by
  rintro rfl
  exact i.isIdentifier.not_mem (s := .char '%') (by decide) (List.mem_of_head? h)

end Identifier

namespace Declared

/-- What an entry is read into. -/
def declaration : Declared → Declaration
  | options names => .options (names.map (·.text))
  | inclusive states => .inclusive (states.map (·.text))
  | exclusive states => .exclusive (states.map (·.text))
  | tokens names => .tokens (names.map (·.text))
  | definition name fragment => .definition name.text fragment.text

/-- Applying what an entry is read into makes its calls. -/
theorem apply_declaration (d : Declared) (lx : DirectedLexer) :
    d.declaration.apply lx = callAll d.calls lx := by
  cases d with
  | options names =>
    show setAll _ lx = _
    rw [setAll_eq, List.map_map]
    rfl
  | inclusive states =>
    show Except.ok (declareAll .inclusive _ lx) = _
    rw [declareAll_eq, List.map_map]
    rfl
  | exclusive states =>
    show Except.ok (declareAll .exclusive _ lx) = _
    rw [declareAll_eq, List.map_map]
    rfl
  | tokens names =>
    show Except.ok (List.foldl _ lx _) = _
    rw [declareTokens_eq, List.map_map]
    rfl
  | definition name fragment =>
    show lx.define _ _ = _
    rw [calls, callAll, Setting.answer, Setting.apply]
    cases lx.define name.text fragment.text <;> rfl

theorem isWord_of_mem_texts (names : List Word) : ∀ t ∈ names.map (·.text), t.IsWord := by
  intro t ht
  obtain ⟨name, -, rfl⟩ := List.mem_map.mp ht
  exact name.isWord

/-- **A line of the first section is read into its entry.** -/
theorem parse_body (d : Declared) (gaps : Nat → Gap) :
    Declaration.parse (d.front ++ gapped gaps d.rest) = .ok d.declaration := by
  cases d with
  | options names =>
    rw [Declaration.parse, front, rest, words_gapped (isWord_of_mem_texts names) (by decide)]
    rfl
  | inclusive states =>
    rw [Declaration.parse, front, rest, words_gapped (isWord_of_mem_texts states) (by decide)]
    rfl
  | exclusive states =>
    rw [Declaration.parse, front, rest, words_gapped (isWord_of_mem_texts states) (by decide)]
    rfl
  | tokens names =>
    rw [Declaration.parse, front, rest, words_gapped (isWord_of_mem_texts names) (by decide)]
    rfl
  | definition name fragment =>
    have hbody : gapped gaps [fragment.text] = (gaps 0).text ++ fragment.text := by
      rw [gapped, gapped, List.append_nil]
    have hwords : (name.text ++ ((gaps 0).text ++ fragment.text)).words =
        name.text :: fragment.text.words := by
      rw [← List.append_assoc, Text.words_gap name.isWord (gaps 0).blank_text (gaps 0).text_ne_nil]
    have hfragment : fragment.text.words.isEmpty = false := by
      rw [List.isEmpty_eq_false_iff]
      exact Text.words_ne_nil fragment.trimmed.1 fragment.ne_nil
    have htrim : ((gaps 0).text ++ fragment.text).trim = fragment.text := by
      have h := Text.trim_padded (gaps 0).blank_text fragment.trimmed (Pad.blank_text [])
      rwa [Pad.text, List.map_nil, List.append_nil] at h
    have hne (keyword : String) (h : (Text.ofString keyword).head? = some (.char '%')) :
        name.text ≠ Text.ofString keyword := name.text_ne h
    rw [Declaration.parse, front, rest, hbody, hwords]
    simp only [hfragment, List.drop_left, htrim]
    rw [if_neg (hne "%%" rfl), if_neg (hne "%option" rfl), if_neg (hne "%s" rfl),
      if_neg (hne "%x" rfl), if_neg (hne "%token" rfl), if_neg Bool.false_ne_true, declaration]

end Declared

/-- A trimmed line that makes these calls. -/
structure Reads (inRules : Bool) (body : Text) (calls : List Call) : Prop where
  trimmed : body.Trimmed
  speaks : saysNothing body = false
  makes : ∀ lx, applyLine inRules body lx = (callAll calls lx).map (inRules, ·)

theorem saysNothing_cons {s : Symbol} (hs : s ≠ .char '#') (t : Text) :
    saysNothing (s :: t) = false := by
  have hne : Symbol.char '#' ≠ s := Ne.symm hs
  show (Text.after? [.char '#'] (s :: t)).isSome = false
  rw [Text.after?, if_neg hne]
  rfl

namespace Declared

theorem front_cons (d : Declared) : ∃ s t, d.front = s :: t ∧ s ≠ .char '#' := by
  cases d with
  | definition name fragment =>
    obtain ⟨s, t, htext⟩ := List.exists_cons_of_ne_nil name.isWord.1
    refine ⟨s, t, htext, ?_⟩
    rintro rfl
    have hmem : Symbol.char '#' ∈ name.text := htext ▸ List.mem_cons_self
    exact name.isIdentifier.not_mem (by decide) hmem
  | _ => exact ⟨.char '%', _, rfl, by decide⟩

theorem isWord_front (d : Declared) : d.front.IsWord := by
  cases d with
  | options => exact show (Text.ofString "%option").IsWord by decide
  | inclusive => exact show (Text.ofString "%s").IsWord by decide
  | exclusive => exact show (Text.ofString "%x").IsWord by decide
  | tokens => exact show (Text.ofString "%token").IsWord by decide
  | definition name fragment => exact name.isWord

theorem rest_ends (d : Declared) : ∀ t ∈ d.rest, t ≠ [] ∧ ∀ s ∈ t.getLast?, s.isBlank = false := by
  intro t ht
  have hword {names : List Word} (h : t ∈ names.map (·.text)) :
      t ≠ [] ∧ ∀ s ∈ t.getLast?, s.isBlank = false :=
    ⟨(isWord_of_mem_texts names t h).1, (isWord_of_mem_texts names t h).trimmed.2⟩
  cases d with
  | definition name fragment =>
    obtain rfl := List.mem_singleton.mp ht
    exact ⟨fragment.ne_nil, fragment.trimmed.2⟩
  | _ => exact hword ht

/-- **A line of the first section makes the calls of its entry.** -/
theorem reads (d : Declared) (gaps : Nat → Gap) :
    Reads false (d.front ++ gapped gaps d.rest) d.calls := by
  obtain ⟨s, t, hfront, hs⟩ := d.front_cons
  refine ⟨trimmed_gapped d.rest_ends d.isWord_front.1 d.isWord_front.trimmed.1
    (fun _ => d.isWord_front.trimmed.2) gaps, ?_, fun lx => ?_⟩
  · rw [hfront, List.cons_append]
    exact saysNothing_cons hs _
  · have hdivider : (d.declaration == .divider) = false := by cases d <;> rfl
    rw [applyLine, if_neg Bool.false_ne_true, parse_body]
    simp only [hdivider, apply_declaration]

end Declared

namespace Ruled

theorem isWord_of_rest (r : Ruled) : ∀ t ∈ r.rest, t.IsWord := by
  intro t ht
  obtain ⟨d, hd, hword⟩ := List.mem_flatMap.mp ht
  obtain ⟨order, -, rfl⟩ := List.mem_map.mp hd
  exact order.areWords t hword

/-- A rule has a first word behind its pattern. -/
theorem rest_rule (p : Pattern) (order : Order) (orders : List Order) :
    ∃ t ts, (rule p order orders).rest = t :: ts := by
  show ∃ t ts, List.flatMap Directive.words (order.directive :: orders.map (·.directive)) = t :: ts
  cases order.directive <;> exact ⟨_, _, rfl⟩

/-- What a line is read into. -/
def clause (r : Ruled) : Clause :=
  match r with
  | rule pattern _ _ => .rule pattern.text r.action
  | default _ => .default r.action

theorem apply_clause (r : Ruled) (lx : DirectedLexer) : r.clause.apply lx = callAll r.calls lx := by
  cases r with
  | rule p order orders =>
    rw [clause, Clause.apply, calls, callAll, Setting.answer, Setting.apply]
    rcases lx.addRule p.text (some (action (rule p order orders))) with ⟨e | u, lx'⟩ <;> rfl
  | default orders => rfl

/-- **A line of the second section is read into its entry.** -/
theorem parse_body (r : Ruled) (gaps : Nat → Gap) :
    Clause.parse (r.front ++ gapped gaps r.rest) = .ok r.clause := by
  cases r with
  | default orders =>
    have hstarts : (Text.ofString "%default" ++ gapped gaps (default orders).rest).startsWith
        "%default" = true :=
      Text.startsWith_iff.mpr (List.prefix_append _ _)
    rw [Clause.parse, front, if_pos hstarts,
      words_gapped (default orders).isWord_of_rest (by decide), List.tail_cons, rest,
      Directive.parse_words]
    rfl
  | rule p order orders =>
    obtain ⟨t, ts, hrest⟩ := rest_rule p order orders
    have hwords := (rule p order orders).isWord_of_rest
    have hparse : Directive.parse (t :: ts) = .ok (rule p order orders).action := by
      rw [← hrest, rest, Directive.parse_words]
    rw [hrest] at hwords ⊢
    have hstarts : (p.text ++ gapped gaps (t :: ts)).startsWith "%default" = false := by
      rw [gapped_cons, Gap.text, List.cons_append, Text.startsWith_append_cons]
      · exact p.notDefault
      · cases (gaps 0).first <;> decide
    have hsplit : splitRule (p.text ++ gapped gaps (t :: ts)) =
        (p.text, t ++ gapped (fun i => gaps (i + 1)) ts) := by
      have htrimmed : (t ++ gapped (fun i => gaps (i + 1)) ts).Trimmed := by
        have ht := hwords t List.mem_cons_self
        refine trimmed_gapped (fun t' ht' => ?_) ht.1 ht.trimmed.1 (fun _ => ht.trimmed.2) _
        have ht' := hwords t' (List.mem_cons_of_mem _ ht')
        exact ⟨ht'.1, ht'.trimmed.2⟩
      have htrim := Text.trim_padded (gaps 0).blank_text htrimmed (Pad.blank_text [])
      rw [Pad.text, List.map_nil, List.append_nil] at htrim
      rw [splitRule, gapped_cons, Pattern.text, splitAt_textOf p.fits]
      simp only [htrim]
    rw [Clause.parse, front, hstarts, if_neg Bool.false_ne_true, hsplit]
    simp only
    rw [words_gapped (fun t' ht' => hwords t' (List.mem_cons_of_mem _ ht'))
      (hwords t List.mem_cons_self), hparse]
    rfl

/-- **A line of the second section makes the calls of its entry**, if its pattern is not empty. -/
theorem reads {r : Ruled} (hr : r.Spoken) (gaps : Nat → Gap) :
    Reads true (r.front ++ gapped gaps r.rest) r.calls := by
  have hends : ∀ t ∈ r.rest, t ≠ [] ∧ ∀ s ∈ t.getLast?, s.isBlank = false := fun t ht =>
    ⟨(r.isWord_of_rest t ht).1, (r.isWord_of_rest t ht).trimmed.2⟩
  refine ⟨?_, ?_, fun lx => ?_⟩
  · cases r with
    | rule p order orders =>
      obtain ⟨t, ts, hrest⟩ := rest_rule p order orders
      refine trimmed_gapped hends hr p.notBlank (fun hnil => ?_) gaps
      rw [hrest] at hnil
      cases hnil
    | default orders =>
      have hword : (Text.ofString "%default").IsWord := by decide
      exact trimmed_gapped hends hword.1 hword.trimmed.1 (fun _ => hword.trimmed.2) gaps
  · cases r with
    | rule p order orders =>
      have hcomment := p.notComment
      cases hp : p.text with
      | nil => exact absurd hp hr
      | cons s t =>
        rw [front, hp, List.cons_append]
        refine saysNothing_cons ?_ _
        rintro rfl
        rw [show textOf p.parts = .char '#' :: t from hp] at hcomment
        cases hcomment
    | default orders => exact saysNothing_cons (by decide) _
  · rw [applyLine, if_pos rfl, parse_body]
    simp only [apply_clause]

end Ruled

end RuleFile

end Munch
