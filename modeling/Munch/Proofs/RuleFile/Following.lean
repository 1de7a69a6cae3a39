import Munch.Proofs.Client
import Munch.Proofs.RuleFile.Entry

/-!
# What the words of an action mean

The action of a rule is written in words. They are read into directives, and following these from
left to right comes to what the list says as a whole: one thing for each `echo`, the last `begin`,
the last `emit` or `skip`. Only a `begin` of a state that is not declared cuts the list short.

* `Directive.Blamed`: words that no directive starts with, and the error for them.
* `Directive.followed`, `Directive.refused?`: the directives up to the first `begin` that is
  refused, and its state.
* `Directive.verdict`: the reply of an action, read off its directives.
* `Directive.Followed`: what following directives comes to.
* `Directive.inTurn`: one action after another.

Results:
* `Directive.parse_eq_ok_iff`, `Directive.parse_eq_error_iff`: which words are read, and how reading
  fails.
* `Directive.followed_follow`: what following directives comes to, whatever has been set before.
* `Directive.follow_append`: following two lists is following one and then the other.
* **`words_mean_actions`**: the words of an action, and what it does.
-/

namespace Munch

namespace Directive

/-! ## Reading words -/

/-- The words that directives start with. -/
def keywords : List Text := [Text.ofString "skip", "echo", "emit", "begin"]

/-- Words that no directive starts with, and the error that says so. -/
inductive Blamed : List Text → Error → Prop
  /-- the last word asks for one more -/
  | alone {word : Text} (h : word = Text.ofString "emit" ∨ word = Text.ofString "begin") :
      Blamed [word] (.needsArgument word)
  | unknown {word : Text} (rest : List Text) (h : word ∉ keywords) :
      Blamed (word :: rest) (.unknownAction word)

theorem parse_blamed {words : List Text} {e : Error} (h : Blamed words e) :
    parse words = .error e := by
  cases h with
  | alone h => obtain rfl | rfl := h <;> rfl
  | @unknown word rest h =>
    simp only [keywords, List.mem_cons, List.not_mem_nil, or_false, not_or] at h
    obtain ⟨hskip, hecho, hemit, hbegin⟩ := h
    rw [parse.eq_def]
    simp only [if_neg hskip, if_neg hecho, if_neg hemit, if_neg hbegin]

/-- The words are those of directives, up to words that are blamed. -/
def Spelled (words : List Text) : Prop :=
  ∃ (ds : List Directive) (rest : List Text), words = ds.flatMap Directive.words ++ rest ∧
    (rest = [] ∨ ∃ e, Blamed rest e)

theorem Spelled.cons (d : Directive) {rest : List Text} (h : Spelled rest) :
    Spelled (d.words ++ rest) := by
  obtain ⟨ds, more, rfl, hend⟩ := h
  exact ⟨d :: ds, more, by rw [List.flatMap_cons, List.append_assoc], hend⟩

theorem Blamed.spelled {rest : List Text} {e : Error} (h : Blamed rest e) : Spelled rest :=
  ⟨[], rest, rfl, .inr ⟨e, h⟩⟩

theorem spelled (words : List Text) : Spelled words := by
  fun_induction parse words with
  | case1 => exact ⟨[], [], rfl, .inl rfl⟩
  | case2 rest ih => exact ih.cons skip
  | case3 rest _ ih => exact ih.cons echo
  | case4 => exact (Blamed.alone (.inl rfl)).spelled
  | case5 name rest _ _ ih => exact ih.cons (emit name)
  | case6 => exact (Blamed.alone (.inr rfl)).spelled
  | case7 state rest _ _ _ ih => exact ih.cons (begin state)
  | case8 word rest hskip hecho hemit hbegin =>
    exact (Blamed.unknown rest (by simp [keywords, hskip, hecho, hemit, hbegin])).spelled

/-- **Directives are read from their words, and from no others.** -/
theorem parse_eq_ok_iff {words : List Text} {ds : List Directive} :
    parse words = .ok ds ↔ words = ds.flatMap Directive.words := by
  constructor
  · intro h
    obtain ⟨ds', rest, rfl, hend⟩ := spelled words
    rw [parse_append] at h
    obtain rfl | ⟨e, he⟩ := hend
    · cases h
      simp only [List.append_nil]
    · rw [parse_blamed he] at h
      cases h
  · rintro rfl
    exact parse_words ds

/-- Reading fails at the first word that no directive starts with. -/
theorem parse_eq_error_iff {words : List Text} {e : Error} :
    parse words = .error e ↔
      ∃ (ds : List Directive) (rest : List Text), words = ds.flatMap Directive.words ++ rest ∧
        Blamed rest e := by
  constructor
  · intro h
    obtain ⟨ds, rest, rfl, hend⟩ := spelled words
    rw [parse_append] at h
    obtain rfl | ⟨e', he'⟩ := hend
    · cases h
    · rw [parse_blamed he'] at h
      cases h
      exact ⟨ds, rest, rfl, he'⟩
  · rintro ⟨ds, rest, rfl, h⟩
    rw [parse_append, parse_blamed h]
    rfl

/-! ## What directives say -/

/-- The reply that a directive sets. -/
def reply? : Directive → Option (Reply Empty)
  | skip => some { signal := .skip }
  | emit name => some { token := name }
  | _ => none

/-- The state that a directive begins. -/
def state? : Directive → Option Text
  | begin state => some state
  | _ => none

/-- The directives up to the first `begin` of a state that is not declared. -/
def followed (s : States) (ds : List Directive) : List Directive :=
  ds.takeWhile (·.state?.all s.isDeclared)

/-- The first state to begin that is not declared. -/
def refused? (s : States) (ds : List Directive) : Option Text :=
  (ds.filterMap state?).find? (!s.isDeclared ·)

/-- What the last `emit` or `skip` says, or else `reply`. -/
def lastReply (reply : Reply Empty) (ds : List Directive) : Reply Empty :=
  (ds.filterMap reply?).getLast?.getD reply

/-- What directives reply if `reply` was set before. -/
def verdict (s : States) (reply : Reply Empty) (ds : List Directive) : Reply Empty :=
  match refused? s ds with
  | some state => { signal := .fail, error := some (.undeclaredState state) }
  | none => lastReply reply ds

/-- What following directives for a match with the context `c` comes to, from a lexer and what is
put out. -/
structure Followed (c : Context) (ds : List Directive) (reply : Reply Empty) (lx : DirectedLexer)
    (out : List Output) (after : Reply Empty × DirectedLexer × List Output) : Prop where
  reply : after.1 = verdict lx.states reply ds
  /-- the text of the match is put out for each `echo` -/
  output : after.2.2 = List.replicate ((followed lx.states ds).count echo) (.echoed c.text) ++ out
  /-- the last state to begin is the active one -/
  state : after.2.1.context.state = ((followed lx.states ds).filterMap state?).getLast?.getD
    lx.context.state
  /-- nothing else changes but the journal -/
  rest : after.2.1 = { lx with
    context := { lx.context with state := after.2.1.context.state }, journal := after.2.1.journal }

variable {c : Context} {s : States} {reply : Reply Empty} {lx : DirectedLexer} {out : List Output}

theorem lastReply_cons (d : Directive) (ds : List Directive) :
    lastReply reply (d :: ds) = lastReply (d.reply?.getD reply) ds := by
  unfold lastReply
  cases hd : d.reply? with
  | none => rw [List.filterMap_cons_none hd, Option.getD_none]
  | some r =>
    rw [List.filterMap_cons_some hd, List.getLast?_cons, Option.getD_some, Option.getD_some]

theorem verdict_cons {d : Directive} (hd : d.state?.all s.isDeclared) (ds : List Directive) :
    verdict s reply (d :: ds) = verdict s (d.reply?.getD reply) ds := by
  have hrefused : refused? s (d :: ds) = refused? s ds := by
    unfold refused?
    cases hstate : d.state? with
    | none => rw [List.filterMap_cons_none hstate]
    | some state =>
      rw [hstate] at hd
      rw [List.filterMap_cons_some hstate, List.find?_cons_of_neg (by simpa using hd)]
  rw [verdict, verdict, hrefused, lastReply_cons]

theorem followed_cons {d : Directive} (hd : d.state?.all s.isDeclared) (ds : List Directive) :
    followed s (d :: ds) = d :: followed s ds := List.takeWhile_cons_of_pos hd

/-! ## Following directives -/

/-- A `begin` is followed if its state is declared. -/
theorem begin_cases (lx : DirectedLexer) (state : Text) :
    (lx.states.isDeclared state = true ∧ ∃ journal,
      lx.begin state =
        .ok { lx with context := { lx.context with state := state }, journal := journal }) ∨
    (lx.states.isDeclared state = false ∧ lx.begin state = .error (.undeclaredState state)) := by
  cases hdeclared : lx.states.isDeclared state with
  | false => exact .inr ⟨rfl, by rw [Lexer.begin, hdeclared]; rfl⟩
  | true =>
    refine .inl ⟨rfl, ?_⟩
    cases hb : lx.begin state with
    | ok lx' => exact ⟨lx'.journal, congrArg Except.ok (Lexer.begin_ok hb)⟩
    | error e =>
      rw [Lexer.begin, hdeclared] at hb
      simp only [Bool.not_true, Bool.false_eq_true, if_false] at hb
      split at hb <;> cases hb

/-- One directive more in front. It sets a reply, puts something out or begins a state. -/
theorem Followed.cons {d : Directive} {ds : List Directive} {lx' : DirectedLexer}
    {out' : List Output} {after : Reply Empty × DirectedLexer × List Output}
    (hd : d.state?.all lx.states.isDeclared)
    (hlx : lx' = { lx with
      context := { lx.context with state := d.state?.getD lx.context.state }
      journal := lx'.journal })
    (hout : out' = List.replicate (List.count echo [d]) (.echoed c.text) ++ out)
    (h : Followed c ds (d.reply?.getD reply) lx' out' after) :
    Followed c (d :: ds) reply lx out after := by
  have hstates : lx'.states = lx.states := by rw [hlx]
  have hstate : lx'.context.state = d.state?.getD lx.context.state := by rw [hlx]
  refine ⟨?_, ?_, ?_, ?_⟩
  · rw [h.reply, hstates, verdict_cons hd]
  · have hcount : List.count echo (d :: followed lx.states ds) =
        List.count echo (followed lx.states ds) + List.count echo [d] := by simp [List.count_cons]
    rw [h.output, hstates, hout, followed_cons hd, hcount, ← List.append_assoc,
      List.replicate_append_replicate]
  · rw [h.state, hstates, hstate, followed_cons hd]
    cases hbegins : d.state? with
    | none => rw [List.filterMap_cons_none hbegins, Option.getD_none]
    | some state =>
      rw [List.filterMap_cons_some hbegins, List.getLast?_cons, Option.getD_some, Option.getD_some]
  · rw [h.rest, hlx]

/-- **What following directives comes to.** -/
theorem followed_follow (c : Context) (ds : List Directive) (reply : Reply Empty)
    (lx : DirectedLexer) (out : List Output) :
    Followed c ds reply lx out (follow c ds reply lx out) := by
  induction ds generalizing reply lx out with
  | nil => exact ⟨rfl, rfl, rfl, rfl⟩
  | cons d ds ih =>
    cases d with
    | skip => exact (ih { signal := .skip } lx out).cons rfl rfl rfl
    | echo => exact (ih reply lx (.echoed c.text :: out)).cons rfl rfl rfl
    | emit name => exact (ih { token := name } lx out).cons rfl rfl rfl
    | begin state =>
      obtain ⟨hdeclared, journal, hb⟩ | ⟨hdeclared, hb⟩ := begin_cases lx state
      · rw [follow, hb]
        exact (ih reply _ out).cons hdeclared rfl rfl
      · rw [follow, hb]
        have hcut : followed lx.states (begin state :: ds) = [] :=
          List.takeWhile_cons_of_neg (by simp [state?, hdeclared])
        refine ⟨?_, ?_, ?_, rfl⟩
        · simp [verdict, refused?, state?, hdeclared]
        · rw [hcut]
          rfl
        · rw [hcut]
          rfl

/-! ## One action after another -/

/-- Is there an `emit` or a `skip`? -/
def decides (ds : List Directive) : Bool := ds.any (·.reply?.isSome)

theorem act_host (c : Context) (ds : List Directive) (lx : DirectedLexer) (out : List Output) :
    host.act ds c lx out = follow c ds {} lx out := rfl

/-- An action after another, for the same match. The second one is not run if the first one fails,
and leaves the reply of the first one if it decides nothing. -/
def inTurn (first second : List Directive) (c : Context) (lx : DirectedLexer) (out : List Output) :
    Reply Empty × DirectedLexer × List Output :=
  let after := host.act first c lx out
  if after.1.signal = .fail then after
  else
    let last := host.act second c after.2.1 after.2.2
    (if last.1.signal = .fail ∨ decides second = true then last.1 else after.1, last.2)

/-- **Following two lists** is following the first, and then the second if nothing was refused. -/
theorem follow_append (c : Context) (us vs : List Directive) (reply : Reply Empty)
    (lx : DirectedLexer) (out : List Output) :
    follow c (us ++ vs) reply lx out =
      if (refused? lx.states us).isSome then follow c us reply lx out
      else
        let after := follow c us reply lx out
        follow c vs after.1 after.2.1 after.2.2 := by
  induction us generalizing reply lx out with
  | nil => rfl
  | cons u us ih =>
    cases u with
    | skip => exact ih _ _ _
    | echo => exact ih _ _ _
    | emit name => exact ih _ _ _
    | begin state =>
      obtain ⟨hdeclared, journal, hb⟩ | ⟨hdeclared, hb⟩ := begin_cases lx state
      · have hrefused : refused? lx.states (begin state :: us) = refused? lx.states us := by
          simp [refused?, state?, hdeclared]
        rw [List.cons_append, follow, hb, follow, hb, hrefused]
        exact ih _ _ _
      · have hrefused : refused? lx.states (begin state :: us) = some state := by
          simp [refused?, state?, hdeclared]
        rw [List.cons_append, follow, hb, follow, hb, hrefused]
        rfl

/-- What was set before makes no difference to what is done. -/
theorem follow_snd (c : Context) (ds : List Directive) (reply reply' : Reply Empty)
    (lx : DirectedLexer) (out : List Output) :
    (follow c ds reply lx out).2 = (follow c ds reply' lx out).2 := by
  induction ds generalizing reply reply' lx out with
  | nil => rfl
  | cons d ds ih =>
    cases d with
    | skip => rfl
    | echo => exact ih _ _ _ _
    | emit name => rfl
    | begin state =>
      rw [follow, follow]
      cases lx.begin state with
      | error e => rfl
      | ok lx' => exact ih _ _ _ _

theorem decides_eq_false {ds : List Directive} (h : decides ds = false) :
    lastReply reply ds = reply := by
  have hnone : ds.filterMap reply? = [] := by simpa [decides, List.filterMap_eq_nil_iff] using h
  rw [lastReply, hnone]
  rfl

theorem decides_eq_true {ds : List Directive} (h : decides ds = true) (reply reply' : Reply Empty) :
    lastReply reply ds = lastReply reply' ds := by
  have hsome : ds.filterMap reply? ≠ [] := by
    obtain ⟨d, hd, hsets⟩ := List.any_eq_true.mp h
    obtain ⟨r, hr⟩ := Option.isSome_iff_exists.mp hsets
    exact List.ne_nil_of_mem (List.mem_filterMap.mpr ⟨d, hd, hr⟩)
  rw [lastReply, lastReply, List.getLast?_eq_some_getLast hsome, Option.getD_some, Option.getD_some]

/-- An `emit` or a `skip` is no failure. -/
theorem signal_lastReply (hreply : reply.signal ≠ .fail) (ds : List Directive) :
    (lastReply reply ds).signal ≠ .fail := by
  unfold lastReply
  cases hlast : (ds.filterMap reply?).getLast? with
  | none => exact hreply
  | some r =>
    obtain ⟨d, -, hd⟩ := List.mem_filterMap.mp (List.mem_of_getLast? hlast)
    cases d <;> cases hd <;> simp

/-- The action of two lists of directives is the action of one after the other. -/
theorem act_append (us vs : List Directive) (c : Context) (lx : DirectedLexer) (out : List Output) :
    host.act (us ++ vs) c lx out = inTurn us vs c lx out := by
  have hfirst : Followed c us {} lx out (host.act us c lx out) := followed_follow c us {} lx out
  rw [act_host, follow_append, ← act_host, inTurn]
  generalize host.act us c lx out = after at hfirst ⊢
  simp only [hfirst.reply, verdict]
  cases hrefused : refused? lx.states us with
  | some state => simp
  | none =>
    have hnofail : (lastReply {} us).signal ≠ .fail := signal_lastReply (by simp) us
    have hstates : after.2.1.states = lx.states := by rw [hfirst.rest]
    have hsecond (reply : Reply Empty) :
        (follow c vs reply after.2.1 after.2.2).1 = verdict lx.states reply vs := by
      rw [(followed_follow c vs reply after.2.1 after.2.2).reply, hstates]
    rw [Option.isSome_none, if_neg Bool.false_ne_true, if_neg hnofail]
    refine Prod.ext ?_ (follow_snd ..)
    simp only
    rw [act_host, hsecond, hsecond, verdict, verdict]
    cases refused? lx.states vs with
    | some state => simp
    | none =>
      cases hdecides : decides vs with
      | false => simp [decides_eq_false hdecides]
      | true => simp [decides_eq_true hdecides (lastReply {} us) {}]

end Directive

open Directive

/-- **The words of an action.** They are read iff they are the words of directives, and otherwise
the first that starts none is blamed. The action follows the directives from left to right, up to
the first `begin` of a state that is not declared: it puts the text of the match out for each
`echo`, the last `begin` says which state is active, the last `emit` or `skip` what it replies, and
a `begin` that is refused makes it fail. Two actions written one after the other are run in turn. -/
theorem words_mean_actions (words : List Text) :
    ((∃ e, parse words = .error e) ↔ ¬∃ ds : List Directive, words = ds.flatMap Directive.words) ∧
      (∀ e, parse words = .error e ↔
        ∃ (ds : List Directive) (rest : List Text), words = ds.flatMap Directive.words ++ rest ∧
          Blamed rest e) ∧
      ∀ ds, parse words = .ok ds →
        words = ds.flatMap Directive.words ∧
          (∀ c lx out, Followed c ds {} lx out (host.act ds c lx out)) ∧
          ∀ more ds', parse more = .ok ds' →
            parse (words ++ more) = .ok (ds ++ ds') ∧
              ∀ c lx out, host.act (ds ++ ds') c lx out = inTurn ds ds' c lx out := by
  refine ⟨?_, fun e => parse_eq_error_iff, fun ds hds => ?_⟩
  · simp only [← parse_eq_ok_iff]
    cases parse words <;> simp
  · have hwords := parse_eq_ok_iff.mp hds
    refine ⟨hwords, fun c lx out => followed_follow c ds {} lx out, fun more ds' hds' =>
      ⟨?_, act_append ds ds'⟩⟩
    rw [hwords, parse_append, hds']
    rfl

/-- Directives about names that are keywords, too. -/
def keywordWords : List Text := [Text.ofString "echo", "emit", "emit", "begin", "skip", "echo"]

/-- A `skip`, and a `begin` that is refused. -/
def refusedWords : List Text := [Text.ofString "skip", "begin", "NOWHERE", "echo"]

/-- A lexer with a state that is called like a keyword. -/
def keywordLexer : DirectedLexer := Lexer.declare {} "skip" .exclusive

theorem words_mean_actions_keywords :
    parse keywordWords = .ok [echo, emit "emit", begin "skip", echo] ∧
      parse (keywordWords ++ refusedWords) =
        .ok ([echo, emit "emit", begin "skip", echo] ++ [skip, begin "NOWHERE", echo]) ∧
      (∀ c, Followed c [echo, emit "emit", begin "skip", echo] {} keywordLexer []
        (host.act [echo, emit "emit", begin "skip", echo] c keywordLexer [])) ∧
      verdict keywordLexer.states {} [echo, emit "emit", begin "skip", echo] = { token := "emit" } ∧
      (∀ c, host.act ([echo, emit "emit", begin "skip", echo] ++ [skip, begin "NOWHERE", echo]) c
        keywordLexer [] =
        inTurn [echo, emit "emit", begin "skip", echo]
          [skip, begin "NOWHERE", echo] c keywordLexer []) ∧
      verdict keywordLexer.states {}
        ([echo, emit "emit", begin "skip", echo] ++ [skip, begin "NOWHERE", echo]) =
        { signal := .fail, error := some (.undeclaredState "NOWHERE") } ∧
      ∃ e, parse (keywordWords ++ [Text.ofString "emit"]) = .error e := by
  have hwords : parse keywordWords = .ok [echo, emit "emit", begin "skip", echo] := rfl
  have hrefused : parse refusedWords = .ok [skip, begin "NOWHERE", echo] := rfl
  obtain ⟨-, -, hread⟩ := words_mean_actions keywordWords
  obtain ⟨-, hact, happend⟩ := hread _ hwords
  obtain ⟨hparse, hturn⟩ := happend _ _ hrefused
  have hlone :=
    (words_mean_actions (keywordWords ++ [Text.ofString "emit"])).2.1 (.needsArgument "emit")
  exact ⟨hwords, hparse, fun c => hact c _ _, rfl, fun c => hturn c _ _, rfl,
    _, hlone.mpr ⟨[echo, emit "emit", begin "skip", echo], _, rfl, .alone (.inl rfl)⟩⟩

end Munch
