import Mathlib.Data.List.TakeDrop
import Mathlib.Data.List.TakeWhile
import Mathlib.Data.Set.List
import Munch.Proofs.Words
import Munch.Rule.Spec

/-!
# Lists of states in specifications

A specification may start with a list of states in angle brackets. The names in the list stand
between commas, and white space around them does not belong to them. A star alone stands for all
states. Brackets with nothing between them are no list: like everything that is not closed, they
belong to the pattern.

* `Listed`: a name in a list, with the white space around it.
* `Reads spec target pattern`: the specification `spec` is for the states `target`, and has the
  pattern `pattern`.

Results:
* `splitStates_closed`: a list ends at the first closing bracket.
* `trim_pieces_listText`: the names of a list are found again, without the white space.
* `Reads.split`, `exists_reads`: what is read is what the splitter finds, and everything can be
  read.
* **`splitSpec_iff`**: the splitter finds the states and the pattern that are read.
-/

namespace Munch.Rule

/-! ## Lists -/

/-- A name in a list, with the white space around it. -/
structure Listed where
  before : Text := []
  name : Text
  after : Text := []
  blankBefore : before.Blank := by decide
  blankAfter : after.Blank := by decide
  trimmed : name.Trimmed
  notComma : name.holds ',' = false
  notClosing : name.holds '>' = false

/-- The text of a name in a list, with the white space. -/
def Listed.text (e : Listed) : Text := e.before ++ e.name ++ e.after

/-- The text of a list: its names with a comma between each two. -/
def listText (es : List Listed) : Text := List.intercalate [.char ','] (es.map Listed.text)

theorem Listed.holds_text (e : Listed) {c : Char} (hc : isBlank c = false)
    (hname : e.name.holds c = false) : e.text.holds c = false := by
  rw [text, Text.holds_append, Text.holds_append, e.blankBefore.holds hc, hname,
    e.blankAfter.holds hc]
  rfl

theorem Listed.trim_text (e : Listed) : e.text.trim = e.name :=
  Text.trim_padded e.blankBefore e.trimmed e.blankAfter

/-- No name in a list closes it. -/
theorem holds_listText (es : List Listed) : (listText es).holds '>' = false := by
  have htext (e : Listed) : e.text.holds '>' = false := e.holds_text (by decide) e.notClosing
  induction es with
  | nil => rfl
  | cons e es ih =>
    cases es with
    | nil =>
      rw [listText, List.map_singleton, List.intercalate_singleton]
      exact htext e
    | cons e' es =>
      rw [listText, List.map_cons, List.map_cons, List.intercalate_cons_cons, ← List.map_cons,
        ← listText, Text.holds_append, Text.holds_append, htext, ih]
      rfl

/-- **The names of a list are found again**, without the white space around them. -/
theorem trim_pieces_listText {es : List Listed} (hne : es ≠ []) :
    (Text.pieces ',' (listText es)).map Text.trim = es.map (·.name) := by
  have htexts : ∀ t ∈ es.map Listed.text, t.holds ',' = false := by
    intro t ht
    obtain ⟨e, -, rfl⟩ := List.mem_map.mp ht
    exact e.holds_text (by decide) e.notComma
  rw [listText, Text.pieces_intercalate htexts (by rwa [ne_eq, List.map_eq_nil_iff]), List.map_map]
  exact List.map_congr_left fun e _ => e.trim_text

/-- Every text that closes nothing is a list. -/
theorem exists_listText {t : Text} (h : t.holds '>' = false) : ∃ es ≠ [], t = listText es := by
  have hlisted : ∀ piece ∈ Text.pieces ',' t, ∃ e : Listed, e.text = piece := by
    intro piece hpiece
    obtain ⟨hsub, hnot⟩ := Text.mem_of_mem_pieces hpiece
    have hcomma : piece.holds ',' = false := Text.holds_eq_false_iff.mpr hnot
    have hclosing : piece.holds '>' = false :=
      Text.holds_eq_false_iff.mpr fun hmem => Text.holds_eq_false_iff.mp h (hsub hmem)
    obtain ⟨before, after, hbefore, hafter, htrimmed, heq⟩ := piece.exists_padded
    rw [heq, Text.holds_append, Text.holds_append, Bool.or_eq_false_iff, Bool.or_eq_false_iff]
      at hcomma hclosing
    exact ⟨⟨before, piece.trim, after, hbefore, hafter, htrimmed, hcomma.1.2, hclosing.1.2⟩,
      heq.symm⟩
  have hrange : Text.pieces ',' t ∈ Set.range (List.map Listed.text) := by
    rw [Set.range_list_map]
    exact hlisted
  obtain ⟨es, hes⟩ := hrange
  refine ⟨es, ?_, ?_⟩
  · rintro rfl
    exact Text.pieces_ne_nil ',' t hes.symm
  · rw [listText, hes, Text.intercalate_pieces]

/-! ## Specifications -/

/-- A list ends at the first closing bracket. -/
theorem splitStates_closed {list : Text} (h : list.holds '>' = false) (hne : list ≠ [])
    (pattern : Text) :
    splitStates (.char '<' :: (list ++ .char '>' :: pattern)) =
      (some ((Text.pieces ',' list).map Text.trim), pattern) := by
  have hlist : ∀ s ∈ list, (!s.is '>') = true := by
    intro s hs
    have hclosing := List.any_eq_false.mp h s hs
    simpa using hclosing
  have hspan : (list ++ .char '>' :: pattern).span (!·.is '>') = (list, .char '>' :: pattern) := by
    rw [List.span_eq_takeWhile_dropWhile, List.takeWhile_append_of_pos hlist,
      List.dropWhile_append_of_pos hlist]
    simp [Symbol.is]
  cases list with
  | nil => exact absurd rfl hne
  | cons s list => rw [splitStates, hspan]

/-- A text without an opening bracket in front has no list. -/
theorem splitStates_unopened {spec : Text} (h : spec.head? ≠ some (.char '<')) :
    splitStates spec = (none, spec) := by
  rw [splitStates.eq_def]
  split
  · exact absurd rfl h
  · rfl

/-- A text without a closing bracket has no list. -/
theorem splitStates_unclosed {spec : Text} (h : spec.holds '>' = false) :
    splitStates spec = (none, spec) := by
  rw [splitStates.eq_def]
  split
  next t =>
    have hall : ∀ s ∈ t, (!s.is '>') = true := by
      intro s hs
      simpa using List.any_eq_false.mp h s (List.mem_cons_of_mem _ hs)
    rw [List.span_eq_takeWhile_dropWhile, List.dropWhile_eq_nil_iff.mpr hall]
    split
    · rfl
    · rfl
    next heq => cases (Prod.mk.inj heq).2
  · rfl

/-- How a specification is read. -/
inductive Reads : Text → Target → Text → Prop
  | named (es : List Listed) (hsome : listText es ≠ [])
      (hstar : es.map (·.name) ≠ [Text.ofString "*"]) (pattern : Text) :
      Reads (.char '<' :: (listText es ++ .char '>' :: pattern)) (.named (es.map (·.name))) pattern
  | star (e : Listed) (hstar : e.name = Text.ofString "*") (pattern : Text) :
      Reads (.char '<' :: (e.text ++ .char '>' :: pattern)) .every pattern
  | empty (pattern : Text) :
      Reads (.char '<' :: .char '>' :: pattern) .unnamed (.char '<' :: .char '>' :: pattern)
  | unopened {spec : Text} (h : spec.head? ≠ some (.char '<')) : Reads spec .unnamed spec
  | unclosed {spec : Text} (h : spec.holds '>' = false) : Reads spec .unnamed spec

/-- **What is read is what the splitter finds.** -/
theorem Reads.split {spec pattern : Text} {target : Target} (h : Reads spec target pattern) :
    splitSpec spec = (target, pattern) := by
  cases h with
  | named es hsome hstar =>
    have hes : es ≠ [] := by
      rintro rfl
      exact hsome rfl
    rw [splitSpec, splitStates_closed (holds_listText es) hsome, trim_pieces_listText hes]
    simp only [if_neg hstar]
  | star e hstar =>
    have htext : e.text ≠ [] := by
      intro hnil
      have hname := e.trim_text
      rw [hnil, hstar] at hname
      revert hname
      decide
    have hcomma : e.text.holds ',' = false := e.holds_text (by decide) e.notComma
    rw [splitSpec, splitStates_closed (e.holds_text (by decide) e.notClosing) htext,
      Text.pieces_one hcomma, List.map_singleton, e.trim_text, hstar]
    rfl
  | empty pattern => rfl
  | unopened h => rw [splitSpec, splitStates_unopened h]
  | unclosed h => rw [splitSpec, splitStates_unclosed h]

/-- **Every specification can be read.** -/
theorem exists_reads (spec : Text) : ∃ target pattern, Reads spec target pattern := by
  by_cases hopen : spec.head? = some (.char '<')
  · obtain ⟨t, rfl⟩ := List.head?_eq_some_iff.mp hopen
    cases hholds : Text.holds (.char '<' :: t) '>' with
    | false => exact ⟨_, _, .unclosed hholds⟩
    | true =>
      -- the first closing bracket ends the list
      have hmem : .char '>' ∈ t :=
        (List.mem_cons.mp (Text.holds_iff.mp hholds)).resolve_left (by decide)
      obtain ⟨list, pattern, rfl, hlist⟩ := List.eq_append_cons_of_mem hmem
      obtain ⟨es, hes, rfl⟩ := exists_listText (Text.holds_eq_false_iff.mpr hlist)
      by_cases hsome : listText es = []
      · rw [hsome]
        exact ⟨_, _, .empty pattern⟩
      by_cases hstar : es.map (·.name) = [Text.ofString "*"]
      · obtain ⟨e, rfl, hname⟩ := List.map_eq_singleton_iff.mp hstar
        rw [listText, List.map_singleton, List.intercalate_singleton]
        exact ⟨_, _, .star e hname pattern⟩
      · exact ⟨_, _, .named es hsome hstar pattern⟩
  · exact ⟨_, _, .unopened hopen⟩

/-- **The splitter finds the states and the pattern that are read.** -/
theorem splitSpec_iff {spec pattern : Text} {target : Target} :
    splitSpec spec = (target, pattern) ↔ Reads spec target pattern := by
  refine ⟨fun h => ?_, Reads.split⟩
  obtain ⟨target', pattern', hreads⟩ := exists_reads spec
  obtain ⟨rfl, rfl⟩ := Prod.mk.inj (h.symm.trans hreads.split)
  exact hreads

end Munch.Rule
