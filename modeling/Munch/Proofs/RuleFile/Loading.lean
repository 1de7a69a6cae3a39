import Munch.Proofs.RuleFile.Entry

/-!
# Loading what was written

A rule file as it is written is loaded by the calls that it stands for, whatever its layout is.

Results:
* `loadLines_calls`, `loadLines_silent`, `loadLines_divider`: what one line does.
* `loadLines_rows`: the lines of a section make the calls of their entries.
* `Written.pieces_text`: the lines of a written file are found again.
* **`load_written`**: a written file is loaded by its calls.
-/

namespace Munch

namespace RuleFile

/-! ## Rows -/

theorem loadLines_silent {line : Text} (hsize : line.size ≤ lineLimit)
    (hsilent : saysNothing line.trim = true) (n : Nat) (inRules : Bool) (more : List Text)
    (lx : DirectedLexer) :
    loadLines n inRules (line :: more) lx = loadLines (n + 1) inRules more lx := by
  rw [loadLines, if_neg (Nat.not_lt.mpr hsize)]
  simp only [hsilent, if_true]

/-- A line that makes calls. -/
theorem loadLines_calls {before after : Pad} {body : Text} {inRules : Bool} {calls : List Call}
    (h : Reads inRules body calls) (hsize : (before.text ++ body ++ after.text).size ≤ lineLimit)
    (n : Nat) (more : List Text) (lx : DirectedLexer) :
    loadLines n inRules ((before.text ++ body ++ after.text) :: more) lx =
      (call (calls.map (n, ·)) lx).bind (loadLines (n + 1) inRules more) := by
  rw [loadLines, if_neg (Nat.not_lt.mpr hsize)]
  simp only [Text.trim_padded before.blank_text h.trimmed after.blank_text, h.speaks, h.makes,
    call_line, Bool.false_eq_true, if_false]
  cases callAll calls lx <;> rfl

theorem saysNothing_blank (p : Pad) : saysNothing p.text.trim = true := by
  have h := Text.trim_padded p.blank_text (t := []) (by decide) (Pad.blank_text [])
  rw [Pad.text, Pad.text, List.map_nil, List.append_nil, List.append_nil] at h
  rw [Pad.text, h]
  rfl

theorem saysNothing_comment (p : Pad) (t : Text) :
    saysNothing (p.text ++ .char '#' :: t).trim = true := by
  obtain ⟨u, hu⟩ := Text.trimEnd_cons (s := .char '#') rfl t
  have htrim : (p.text ++ .char '#' :: t).trim = .char '#' :: u := by
    rw [Text.trim, Text.trimStart_blank p.blank_text, ← hu]
    rfl
  rw [htrim]
  rfl

/-- **The lines of a section make the calls of their entries.** -/
theorem loadLines_rows {ι : Type} {front : ι → Text} {rest : ι → List Text} {calls : ι → List Call}
    {inRules : Bool} {rows : List (Row ι)}
    (hreads : ∀ layout e, .entry layout e ∈ rows →
      Reads inRules (front e ++ gapped layout.gaps (rest e)) (calls e))
    (hsize : ∀ row ∈ rows, (row.text front rest).size ≤ lineLimit) (n : Nat) (more : List Text)
    (lx : DirectedLexer) :
    loadLines n inRules (rows.map (Row.text front rest) ++ more) lx =
      (call (Row.numbered calls n rows) lx).bind (loadLines (n + rows.length) inRules more) := by
  induction rows generalizing n lx with
  | nil => rfl
  | cons row rows ih =>
    have hrow := hsize row List.mem_cons_self
    have hrest := ih (fun layout e he => hreads layout e (List.mem_cons_of_mem _ he))
      (fun row' hrow' => hsize row' (List.mem_cons_of_mem _ hrow')) (n + 1)
    have hlength : n + 1 + rows.length = n + (row :: rows).length := by
      rw [List.length_cons, Nat.add_assoc, Nat.add_comm 1]
    rw [hlength] at hrest
    rw [List.map_cons, List.cons_append]
    cases row with
    | blank p =>
      rw [loadLines_silent hrow (saysNothing_blank p), hrest]
      rfl
    | comment before text oneLine =>
      rw [loadLines_silent hrow (saysNothing_comment before text), hrest]
      rfl
    | entry layout e =>
      rw [Row.text, loadLines_calls (hreads layout e List.mem_cons_self) hrow, Row.numbered,
        call_append]
      cases call _ lx with
      | error => rfl
      | ok lx' => exact hrest lx'

/-- The line between the sections. -/
theorem loadLines_divider {before after : Pad}
    (hsize : (before.text ++ Text.ofString "%%" ++ after.text).size ≤ lineLimit) (n : Nat)
    (more : List Text) (lx : DirectedLexer) :
    loadLines n false ((before.text ++ Text.ofString "%%" ++ after.text) :: more) lx =
      loadLines (n + 1) true more lx := by
  rw [loadLines, if_neg (Nat.not_lt.mpr hsize)]
  simp only [Text.trim_padded before.blank_text (show (Text.ofString "%%").Trimmed by decide)
    after.blank_text]
  rfl

/-! ## Lines -/

/-- An empty line at the end says nothing. -/
theorem loadLines_concat_nil (n : Nat) (inRules : Bool) (ls : List Text) (lx : DirectedLexer) :
    loadLines n inRules (ls ++ [[]]) lx = loadLines n inRules ls lx := by
  induction ls generalizing n inRules lx with
  | nil => exact loadLines_silent (Nat.zero_le _) rfl n inRules [] lx
  | cons l ls ih =>
    rw [List.cons_append, loadLines, loadLines]
    split
    · rfl
    · simp only
      split
      · exact ih _ _ _
      · cases applyLine inRules l.trim lx with
        | error e => rfl
        | ok result => exact ih _ _ _

/-- It makes no difference whether the last line ends with a newline. -/
theorem loadLines_lines (n : Nat) (inRules : Bool) (t : Text) (lx : DirectedLexer) :
    loadLines n inRules (lines t) lx = loadLines n inRules (Text.pieces '\n' t) lx := by
  unfold lines
  split
  next rest hlast =>
    have hpieces : Text.pieces '\n' t = rest.reverse ++ [[]] := by
      rw [← List.reverse_reverse (Text.pieces '\n' t), hlast, List.reverse_cons]
    rw [hpieces, loadLines_concat_nil]
  · rw [List.reverse_reverse]

theorem Pad.oneLine (p : Pad) : p.text.holds '\n' = false := by
  rw [Text.holds, List.any_eq_false]
  intro s hs
  obtain ⟨space, -, rfl⟩ := List.mem_map.mp hs
  cases space <;> decide

theorem gapped_oneLine {ts : List Text} (h : ∀ t ∈ ts, t.holds '\n' = false) (gaps : Nat → Gap) :
    (gapped gaps ts).holds '\n' = false := by
  induction ts generalizing gaps with
  | nil => rfl
  | cons t ts ih =>
    have hgap : (gaps 0).text.holds '\n' = false := Pad.oneLine ((gaps 0).first :: (gaps 0).rest)
    rw [gapped, Text.holds_append, Text.holds_append, hgap, h t List.mem_cons_self,
      ih fun t' ht' => h t' (List.mem_cons_of_mem _ ht')]
    rfl

/-- A row is one line, if its entry is. -/
theorem Row.oneLine {ι : Type} {front : ι → Text} {rest : ι → List Text}
    (hfront : ∀ e, (front e).holds '\n' = false) (hrest : ∀ e, ∀ t ∈ rest e, t.holds '\n' = false)
    (row : Row ι) : (row.text front rest).holds '\n' = false := by
  cases row with
  | blank p => exact p.oneLine
  | comment before text oneLine =>
    have hcomment : Text.holds (.char '#' :: text) '\n' = false := oneLine
    rw [Row.text, Text.holds_append, before.oneLine, hcomment]
    rfl
  | entry layout e =>
    rw [Row.text, Text.holds_append, Text.holds_append, Text.holds_append, layout.before.oneLine,
      layout.after.oneLine, hfront e, gapped_oneLine (hrest e)]
    rfl

theorem Declared.oneLine_rest (d : Declared) : ∀ t ∈ d.rest, t.holds '\n' = false := by
  intro t ht
  cases d with
  | definition name fragment =>
    obtain rfl := List.mem_singleton.mp ht
    exact fragment.oneLine
  | options names => exact (isWord_of_mem_texts names t ht).oneLine
  | inclusive states => exact (isWord_of_mem_texts states t ht).oneLine
  | exclusive states => exact (isWord_of_mem_texts states t ht).oneLine
  | tokens names => exact (isWord_of_mem_texts names t ht).oneLine

theorem Ruled.oneLine_front (r : Ruled) : r.front.holds '\n' = false := by
  cases r with
  | rule p _ _ => exact p.oneLine
  | default _ => exact show (Text.ofString "%default").holds '\n' = false by decide

/-- A written file has the lines that it was written in. -/
theorem Written.pieces_text (f : Written) : Text.pieces '\n' f.text = f.lines := by
  refine Text.pieces_intercalate (fun l hl => ?_) (by simp [Written.lines])
  obtain hl | hl := List.mem_append.mp hl
  · obtain ⟨row, -, rfl⟩ := List.mem_map.mp hl
    exact row.oneLine (fun d => d.isWord_front.oneLine) Declared.oneLine_rest
  · obtain rfl | hl := List.mem_cons.mp hl
    · rw [Written.dividerText, Text.holds_append, Text.holds_append, Pad.oneLine, Pad.oneLine]
      decide
    · obtain ⟨row, -, rfl⟩ := List.mem_map.mp hl
      exact row.oneLine Ruled.oneLine_front fun r t ht => (r.isWord_of_rest t ht).oneLine

/-! ## Files -/

/-- **A written file is loaded by its calls.** If no rule has the empty pattern, and no line is too
long, loading the text of the file makes the calls that it stands for, in their order and on a new
lexer. The first call that fails ends the loading with its error and with the number of its line. -/
theorem load_written (f : Written) (hspoken : f.Spoken)
    (hsize : ∀ l ∈ f.lines, l.size ≤ lineLimit) :
    load f.text = call f.calls { handler := some () } := by
  have htop : ∀ row ∈ f.declarations, (row.text Declared.front Declared.rest).size ≤ lineLimit :=
    fun row hrow => hsize _ (List.mem_append_left _ (List.mem_map_of_mem hrow))
  have hdivider : f.dividerText.size ≤ lineLimit :=
    hsize _ (List.mem_append_right _ List.mem_cons_self)
  have hbottom : ∀ row ∈ f.clauses, (row.text Ruled.front Ruled.rest).size ≤ lineLimit :=
    fun row hrow =>
      hsize _ (List.mem_append_right _ (List.mem_cons_of_mem _ (List.mem_map_of_mem hrow)))
  have hclauses (n : Nat) (lx : DirectedLexer) :
      loadLines n true (f.clauses.map (Row.text Ruled.front Ruled.rest)) lx =
        call (Row.numbered Ruled.calls n f.clauses) lx := by
    have h :=
      loadLines_rows (fun layout r hr => Ruled.reads (hspoken layout r hr) layout.gaps)
        hbottom n [] lx
    rw [List.append_nil] at h
    rw [h]
    cases call (Row.numbered Ruled.calls n f.clauses) lx <;> rfl
  rw [load, loadLines_lines, f.pieces_text, Written.lines,
    loadLines_rows (fun layout d _ => d.reads layout.gaps) htop, Written.calls, call_append]
  cases call (Row.numbered Declared.calls 1 f.declarations) { handler := some () } with
  | error e => rfl
  | ok lx =>
    show loadLines (1 + f.declarations.length) false (f.dividerText :: _) lx = call _ lx
    rw [Written.dividerText, loadLines_divider hdivider, hclauses, Nat.add_comm 1]

/-- A literal with a blank and an escaped quote in it, and an escaped blank behind it. -/
def quotedPattern : Pattern where
  parts := [.literal [.symbol (.char ' '), .escape (.char '"')], .escape (.char ' ')]
  fits := by decide
  oneLine := by decide
  notBlank := by decide
  notComment := by decide
  notDefault := by decide

/-- A pattern for a state. -/
def statePattern : Pattern where
  parts := (Text.ofString "<S>a+").map .symbol
  fits := by decide
  oneLine := by decide
  notBlank := by decide
  notComment := by decide
  notDefault := by decide

/-- A file with padding, and with lines that say nothing. -/
def padded : Written where
  declarations := [
    .comment [] " states" (by decide),
    .entry { gaps := fun _ => ⟨.tab, [.blank]⟩, after := [.tab] } (.exclusive [⟨"S", by decide⟩]),
    .blank [.blank],
    .entry { before := [.blank] } (.definition ⟨"DIGIT", by decide⟩
      ⟨"[0-9] ?", by decide, by decide, by decide⟩)]
  divider := ([], [.blank])
  clauses := [
    .entry { after := [.blank] } (.rule quotedPattern ⟨.begin "S", by decide⟩ []),
    .comment [.tab] "" (by decide),
    .entry { before := [.tab] } (.rule statePattern ⟨.emit "ID", by decide⟩ [⟨.echo, by decide⟩]),
    .entry {} (.default [⟨.skip, by decide⟩])]

theorem load_written_padded :
    load padded.text = call padded.calls { handler := some () } ∧
      (load padded.text).map (fun lx => (lx.patterns "initial", lx.patterns "S",
        lx.hasDefault "initial")) =
        .ok ([Text.ofString "(?: \")\\ "], [Text.ofString "a+"], true) := by
  have hspoken : padded.Spoken := by
    intro layout r hr
    simp only [padded, List.mem_cons, List.not_mem_nil, or_false, Row.entry.injEq, reduceCtorEq,
      false_or] at hr
    obtain ⟨-, rfl⟩ | ⟨-, rfl⟩ | ⟨-, rfl⟩ := hr
    · exact show quotedPattern.text ≠ [] by decide
    · exact show statePattern.text ≠ [] by decide
    · trivial
  have hload := load_written padded hspoken (by decide +kernel)
  refine ⟨hload, ?_⟩
  rw [hload]
  decide +kernel

/-- The empty pattern. -/
def emptyPattern : Pattern := ⟨[], by decide, rfl, by decide, rfl, rfl⟩

/-- A file with one rule, for the empty pattern. -/
def unspoken : Written where
  declarations := []
  divider := ([], [])
  clauses := [.entry { before := [.blank] } (.rule emptyPattern ⟨.skip, by decide⟩ [])]

/-- The empty pattern cannot be written: the first word behind it is taken for the pattern. -/
theorem load_unspoken :
    (∀ l ∈ unspoken.lines, l.size ≤ lineLimit) ∧
      (load unspoken.text).map (·.patterns "initial") = .ok [Text.ofString "skip"] ∧
      (call unspoken.calls { handler := some () }).map (·.patterns "initial") = .ok [[]] ∧
      load unspoken.text ≠ call unspoken.calls { handler := some () } := by
  have hloaded : (load unspoken.text).map (·.patterns "initial") = .ok [Text.ofString "skip"] := by
    decide +kernel
  have hcalled : (call unspoken.calls { handler := some () }).map (·.patterns "initial") =
      .ok [[]] := by
    decide +kernel
  refine ⟨by decide +kernel, hloaded, hcalled, fun heq => ?_⟩
  rw [heq, hcalled] at hloaded
  revert hloaded
  decide

end RuleFile

end Munch
