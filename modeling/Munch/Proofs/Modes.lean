import Mathlib.Data.List.Find
import Munch.Proofs.ByteSearch
import Munch.Proofs.Pattern.Dialects
import Munch.Proofs.Tokenizing

/-!
# The two matchers

With option `dfa` a scan reads its whole input, and matches the patterns of its rules as patterns
over bytes; without it, patterns over runes are matched against a window. Nothing in the two is the
same but the rule that the longest match wins and, of equally long ones, the first.

* `bestOf takes rules rs n`: the longest match of `rules` among the first `n` runes of `rs`, if
  `takes` says which words a rule matches.
* `ReadAlike rules`: of every word the first rule that matches it is the same in both dialects.
* `Lexer.ModesAgree`: no scan of ASCII shows whether option `dfa` is on.

Results:
* `Lexer.task_find` and `Task.finds_bytes`: with plain patterns both matchers find the best match,
  each in its own dialect.
* **`modes_agree_iff_read_alike`**: the matchers agree just if the dialects do.
-/

namespace Munch

variable {α η υ ω : Type}

open Lexer

/-! ## The longest match -/

/-- The longest match among the first `n` runes, if `takes` says which words a rule matches. -/
def bestOf (takes : Rule α → List Rune → Bool) (rules : List (Rule α)) (rs : List Rune) :
    Nat → Option (Rule α × Nat)
  | 0 => none
  | n + 1 =>
    match rules.find? (takes · (rs.take (n + 1))) with
    | some r => some (r, n + 1)
    | none => bestOf takes rules rs n

section Best

variable {takes takes' : Rule α → List Rune → Bool} {rules : List (Rule α)} {rs : List Rune}

theorem bestOf_length {n m : Nat} {r : Rule α} (h : bestOf takes rules rs n = some (r, m)) :
    0 < m ∧ m ≤ n := by
  induction n with
  | zero => cases h
  | succ n ih =>
    rw [bestOf] at h
    split at h
    · cases h
      exact ⟨Nat.succ_pos n, Nat.le_refl _⟩
    · obtain ⟨hpos, hle⟩ := ih h
      exact ⟨hpos, Nat.le_succ_of_le hle⟩

/-- Programs that accept what rules match find the best match. -/
theorem longestUpTo_eq_bestOf {ps : List Program} {gaps : Nat → Gap}
    (h : List.Forall₂ (fun r q => ∀ n ≤ rs.length, q.acceptsAt gaps rs n = takes r (rs.take n))
      rules ps) {n : Nat} (hn : n ≤ rs.length) :
    (longestUpTo ps gaps rs n).bind (fun h => rules[h.rule]?.map (·, h.length)) =
      bestOf takes rules rs n := by
  induction n with
  | zero => rfl
  | succ n ih =>
    have hfirst : (ps.findIdx? (·.acceptsAt gaps rs (n + 1))).bind (fun i => rules[i]?) =
        rules.find? (takes · (rs.take (n + 1))) := by
      clear ih
      induction h with
      | nil => rfl
      | @cons r q rules ps hq _ ihrest =>
        rw [List.findIdx?_cons, List.find?_cons, hq _ hn]
        cases takes r (rs.take (n + 1)) with
        | true => rfl
        | false =>
          rw [← ihrest]
          simp only [Bool.false_eq_true, if_false, Option.bind_map]
          rfl
    rw [longestUpTo, bestOf, ← hfirst, ← ih (Nat.le_of_succ_le hn)]
    cases hwinner : ps.findIdx? (·.acceptsAt gaps rs (n + 1)) with
    | none => rfl
    | some i =>
      have hlt : i < rules.length := by
        rw [h.length_eq]
        exact (List.findIdx?_eq_some_iff_getElem.mp hwinner).1
      rw [better, Option.bind_some, Option.bind_some, List.getElem?_eq_getElem hlt]
      rfl

theorem bestOf_congr (h : ∀ n < rs.length, rules.find? (takes · (rs.take (n + 1))) =
      rules.find? (takes' · (rs.take (n + 1)))) {n : Nat} (hn : n ≤ rs.length) :
    bestOf takes rules rs n = bestOf takes' rules rs n := by
  induction n with
  | zero => rfl
  | succ n ih => rw [bestOf, bestOf, h n hn, ih (Nat.le_of_succ_le hn)]

/-- What wins the whole of a text can be told from the best match. -/
theorem find?_of_bestOf (hrs : rs ≠ [])
    (h : bestOf takes rules rs rs.length = bestOf takes' rules rs rs.length) :
    rules.find? (takes · rs) = rules.find? (takes' · rs) := by
  obtain ⟨n, hn⟩ : ∃ n, rs.length = n + 1 := Nat.exists_eq_succ_of_ne_zero (by simpa using hrs)
  have htake : rs.take (n + 1) = rs := hn ▸ List.take_length
  have hshort (takes : Rule α → List Rune → Bool) (r : Rule α) :
      bestOf takes rules rs n ≠ some (r, n + 1) :=
    fun h => Nat.not_succ_le_self n (bestOf_length h).2
  rw [hn, bestOf, bestOf, htake] at h
  cases hr : rules.find? (takes · rs) with
  | none =>
    cases hr' : rules.find? (takes' · rs) with
    | none => rfl
    | some r' =>
      rw [hr, hr'] at h
      exact absurd h (hshort takes r')
  | some r =>
    cases hr' : rules.find? (takes' · rs) with
    | none =>
      rw [hr, hr'] at h
      exact absurd h.symm (hshort takes' r)
    | some r' =>
      rw [hr, hr'] at h
      cases h
      rfl

end Best

/-- Of every word of ASCII the first rule that matches it is the same in both dialects. -/
def ReadAlike (rules : List (Rule α)) : Prop :=
  ∀ w, InAscii w → w ≠ [] → rules.find? (·.takes w) = rules.find? (·.takesBytes w)

theorem ReadAlike.bestOf_eq {rules : List (Rule α)} (h : ReadAlike rules) {rs : List Rune}
    (hrs : InAscii rs) :
    bestOf Rule.takes rules rs rs.length = bestOf Rule.takesBytes rules rs rs.length := by
  refine bestOf_congr (fun n hn => h _ (hrs.sublist (List.take_sublist _ _)) fun hnil => ?_)
    (Nat.le_refl _)
  have := congrArg List.length hnil
  rw [List.length_take, List.length_nil] at this
  omega

/-! ## Matching runes -/

/-- A new matcher for runes finds the best match of plain patterns. -/
theorem Lexer.task_find (lx : Lexer α η) (s : Source) (hascii : InAscii s.pending)
    (hplain : ∀ state, ∀ r ∈ lx.rules.rulesFor state, r.IsPlain) (state : Text) {p : Nat}
    (hp : p ≤ s.pending.length) :
    (lx.task s).find state p =
      bestOf Rule.takes (lx.rules.rulesFor state) (s.pending.drop p) (s.pending.drop p).length := by
  have hrest : InAscii (s.pending.drop p) := hascii.sublist (List.drop_sublist p _)
  refine ((RuneMatcher.fresh_new lx.rules).longest state (Window.over_whole hp)).trans ?_
  show longestOf _ _ (s.pending.drop p) = _
  rw [longestOf, hrest.usable]
  refine longestUpTo_eq_bestOf (List.forall₂_map_right_iff.mpr (List.forall₂_same.mpr ?_))
    (Nat.le_refl _)
  intro r hr n hn
  obtain ⟨q, -, hq⟩ := hplain state r hr
  exact hq.accepts _ hn

/-! ## Matching bytes -/

/-- The patterns of plain rules compile to programs for the words that they match over bytes. -/
theorem exists_bytePrograms {rules : List (Rule α)} (h : ∀ r ∈ rules, r.IsPlain) :
    ∃ qs, Compiles rules qs ∧ List.Forall₂ (fun r q => ∀ (gaps : Nat → Gap) (rs : List Rune),
      ∀ n ≤ rs.length, q.acceptsAt gaps rs n = r.takesBytes (rs.take n)) rules qs := by
  have hpatterns : ∃ ps : List (Plain .choice), (∀ p ∈ ps, p.nullable = false) ∧
      List.Forall₂ (fun r p => p.nullable = false ∧ r.SpelledBy p) rules ps := by
    induction rules with
    | nil => exact ⟨[], List.forall_mem_nil _, .nil⟩
    | cons r rules ih =>
      obtain ⟨⟨p, hp, hr⟩, hrules⟩ := List.forall_mem_cons.mp h
      obtain ⟨ps, hps, hall⟩ := ih hrules
      exact ⟨p :: ps, List.forall_mem_cons.mpr ⟨hp, hps⟩, .cons ⟨hp, hr⟩ hall⟩
  obtain ⟨ps, hps, hall⟩ := hpatterns
  have htexts : rules.map (·.bytePattern) = ps.map Plain.text := by
    clear hps h
    induction hall with
    | nil => rfl
    | cons hr _ ih => rw [List.map_cons, List.map_cons, ih, hr.2.bytePattern]
  refine ⟨ps.map Plain.byteProgram, .inr (htexts ▸ Plain.compile_text hps), ?_⟩
  refine List.forall₂_map_right_iff.mpr (hall.imp ?_)
  rintro r p ⟨hp, hr⟩ gaps rs n hn
  exact hr.acceptsBytes hp gaps hn

/-- **A search over bytes finds the best match** of plain patterns in ASCII. -/
theorem Task.finds_bytes (k : Task α η) {es : List (Event α υ)} {s : Source}
    (hs : lastSource es = some s) (hk : k.runes = s.pending) (hascii : InAscii s.pending)
    (hplain : ∀ state, ∀ r ∈ k.rules.rulesFor state, r.IsPlain)
    (hfind : ∀ state p, k.states.Reached state → p < s.pending.length →
      k.find state p = bestOf Rule.takesBytes (k.rules.rulesFor state) (s.pending.drop p)
        (s.pending.drop p).length) :
    k.Finds es true := by
  intro state p lx w h hlt
  rw [hk] at hlt
  obtain ⟨qs, hcompiles, haccepts⟩ := exists_bytePrograms (hplain state)
  have hrest : InAscii (s.pending.drop p) := hascii.sublist (List.drop_sublist p _)
  have hstate : lx.rules.rulesFor lx.context.state = k.rules.rulesFor state := by
    rw [h.rules, h.state]
  have hsearch : lx.search w = lx.searchBytes w := by
    unfold Lexer.search
    rw [h.dfa]
    rfl
  have hbest : k.find state p = (longestUpTo qs (fun _ => Bytes.nowhere) (s.pending.drop p)
      (s.pending.drop p).length).bind fun h =>
        (k.rules.rulesFor state)[h.rule]?.map (·, h.length) := by
    rw [hfind state p h.reached hlt]
    exact (longestUpTo_eq_bestOf (haccepts.imp fun r q hq => hq _ _) (Nat.le_refl _)).symm
  have hfound : (lx.searchBytes w).1 = .ofHit (k.find state p) := by
    rw [h.fresh.searchBytes hs h.window, compileRules_of_compiles (hstate ▸ hcompiles), h.offset]
    simp only [hstate]
    rw [ByteRules.longest_ascii _ hrest, hbest]
  refine ⟨hsearch ▸ hfound, fun r n hr => ?_⟩
  have hahead := h.fresh.searchBytes_ahead hs h.window (hfound.trans (ofHit_eq_found.mpr hr))
  rw [hfind state p h.reached hlt] at hr
  rw [hsearch, hahead, h.offset]
  exact (bestOf_length hr).2

/-! ## What scans show -/

/-- What can be seen of a scan. -/
structure Shown (α υ ω : Type) where
  events : List (Event α υ)
  outcome : Outcome
  phase : Phase
  /-- the state that is active in the end -/
  state : Text
  world : ω

namespace Lexer

/-- What can be seen of a scan with option `dfa` switched: the source is attached, states are begun,
and the scan runs. -/
def shows (lx : Lexer α η) (dfa : Bool) (s : Source) (opening : Talk Unit) (script : Script α η υ ω)
    (limit : Nat) (world : ω) : Shown α υ ω :=
  let start := (opening.on (((Setting.option "dfa" dfa).apply lx).attachSource s)).2
  let (outcome, after, world') := start.lex script.host limit world
  ⟨start.lexEvents script.host .silent (fun _ => none) limit world, outcome, after.phase,
    after.context.state, world'⟩

/-- No scan of ASCII to its end shows whether option `dfa` is on. -/
def ModesAgree (υ : Type) (lx : Lexer α η) (world : ω) : Prop :=
  ∀ (s : Source) (opening : Talk Unit) (script : Script α η υ ω) (limit : Nat), s.reason = .ended →
    InAscii s.pending → s.pending.length < limit →
      lx.shows true s opening script limit world = lx.shows false s opening script limit world

end Lexer

/-- What can be seen of a scan that ends as the account tells. -/
def Account.shown (a : Account α υ ω) : Shown α υ ω where
  events := a.events
  outcome := a.outcome
  phase := match a.outcome with
    | .finished => .exhausted
    | .failed e => .failed e
    | _ => .idle
  state := a.state
  world := a.world

theorem Account.Tells.shown {a : Account α υ ω} {es : List (Event α υ)}
    {result : Outcome × Lexer α η × ω} (h : a.Tells es result)
    (hends : a.outcome = .finished ∨ ∃ e, a.outcome = .failed e) :
    (⟨es, result.1, result.2.1.phase, result.2.1.context.state, result.2.2⟩ : Shown α υ ω) =
      a.shown := by
  have hphase : result.2.1.phase = a.shown.phase := by
    unfold Account.shown
    obtain hend | ⟨e, hend⟩ := hends
    · rw [hend]
      exact h.exhausted.mpr hend
    · rw [hend]
      exact (h.failed e).mpr hend
  rw [h.events, h.outcome, h.state, h.world, hphase]
  rfl

/-- A scan shows what a task tells whose matches it finds. -/
theorem Lexer.shows_eq {es : List (Event α υ)} {lx : Lexer α η} (run : Run {} es lx) (dfa : Bool)
    (s : Source) (hs : s.reason = .ended) {k : Task α η} (hk : k.runes = s.pending)
    (hinput : k.input = s.name) (hstates : lx.states = k.states) (hrules : lx.rules = k.rules)
    (htokens : lx.tokens = k.tokens) (hhandler : lx.handler = k.handler)
    (hfinds : k.Finds (es ++ [.attached s]) dfa)
    (hpos : ∀ state p r n, p < k.runes.length → k.find state p = some (r, n) → 0 < n)
    (opening : Talk Unit) (script : Script α η υ ω) {limit : Nat}
    (hlimit : s.pending.length < limit) (world : ω) :
    lx.shows dfa s opening script limit world =
      (k.tokenize script limit (opening.leave k.states States.initial).2 0 world).shown := by
  have hstage :=
    stage_attachSource (run.register (.option "dfa" dfa)) s hs hk hinput hstates hrules htokens
      hhandler
  obtain ⟨-, hbegun, hphase⟩ := hstage.talk opening
  have htells := hbegun.lex hfinds
    (.inl (hphase.trans (attached_attachSource _ s).phase)) script limit world
  exact htells.shown (k.tokenize_ends hpos script limit _ 0 world (hk ▸ hlimit))

/-! ## The first match of a scan -/

namespace Task

/-- What takes the first runes can be told from the first event. -/
theorem head?_tokenize (k : Task α η) (script : Script α η υ ω) (limit : Nat) (state : Text)
    {p : Nat} (hp : p < k.runes.length) (world : ω) :
    (k.tokenize script (limit + 1) state p world).events.head? =
      (k.next state p).map fun (t, n) => .dispatched t (k.context state p n) := by
  rw [tokenize, if_neg (Nat.not_le.mpr hp)]
  cases k.next state p with
  | none => rfl
  | some hit =>
    obtain ⟨t, n⟩ := hit
    simp only
    rcases k.perform script (k.context state p n) t.action world
      with ⟨events, _ | e, state', world'⟩
    · rfl
    · rfl

/-- A match of a rule can be told from one that the default action takes. -/
theorem find_eq_of_next {k k' : Task α η} {state : Text} {p : Nat}
    (h : k.next state p = k'.next state p) : k.find state p = k'.find state p := by
  have hdefault (k : Task α η) (r : Rule α) (n : Nat) :
      (k.rules.defaultFor state).map (fun action => (Taker.default action, 1)) ≠
        some (.rule r, n) := by
    intro heq
    obtain ⟨action, -, haction⟩ := Option.map_eq_some_iff.mp heq
    cases haction
  unfold next at h
  rcases hk : k.find state p with _ | ⟨r, n⟩
  · rcases hk' : k'.find state p with _ | ⟨r', n'⟩
    · rfl
    · rw [hk, hk'] at h
      exact absurd h (hdefault k r' n')
  · rcases hk' : k'.find state p with _ | ⟨r', n'⟩
    · rw [hk, hk'] at h
      exact absurd h.symm (hdefault k' r n)
    · rw [hk, hk'] at h
      cases h
      rfl

end Task

/-! ## Agreement -/

/-- The task of a lexer with the best matches over bytes. -/
def Lexer.byteTask (lx : Lexer α η) (s : Source) : Task α η :=
  { lx.task s with
    find := fun state p =>
      bestOf Rule.takesBytes (lx.rules.rulesFor state) (s.pending.drop p)
        (s.pending.drop p).length }

section Agreement

variable {es : List (Event α υ)} {lx : Lexer α η} (run : Run {} es lx)
  (hplain : ∀ state, ∀ r ∈ lx.rules.rulesFor state, r.IsPlain)

include run

theorem Lexer.shows_runes (s : Source) (hs : s.reason = .ended) (opening : Talk Unit)
    (script : Script α η υ ω) {limit : Nat} (hlimit : s.pending.length < limit) (world : ω) :
    lx.shows false s opening script limit world =
      ((lx.task s).tokenize script limit (opening.leave lx.states States.initial).2 0
        world).shown :=
  lx.shows_eq run false s hs rfl rfl rfl rfl rfl rfl (lx.task_finds s _)
    (fun _ _ _ _ hp hfind => lx.task_find_pos s hp hfind) opening script hlimit world

include hplain

theorem Lexer.shows_bytes (s : Source) (hs : s.reason = .ended) (hascii : InAscii s.pending)
    (opening : Talk Unit) (script : Script α η υ ω) {limit : Nat}
    (hlimit : s.pending.length < limit) (world : ω) :
    lx.shows true s opening script limit world =
      ((lx.byteTask s).tokenize script limit (opening.leave lx.states States.initial).2 0
        world).shown :=
  lx.shows_eq run true s hs rfl rfl rfl rfl rfl rfl
    ((lx.byteTask s).finds_bytes (lastSource_attached es s) rfl hascii hplain fun _ _ _ _ => rfl)
    (fun _ _ _ _ _ hfind => (bestOf_length hfind).1) opening script hlimit world

/-- Rules that are read alike are matched alike. -/
theorem Lexer.modesAgree_of_readAlike
    (halike : ∀ state, lx.states.Reached state → ReadAlike (lx.rules.rulesFor state)) (world : ω) :
    lx.ModesAgree υ world := by
  intro s opening script limit hs hascii hlimit
  have hfinds : (lx.task s).Finds (es ++ [.attached s]) true := by
    refine (lx.task s).finds_bytes (lastSource_attached es s) rfl hascii hplain
      fun state p hreached hp => ?_
    rw [lx.task_find s hascii hplain state (Nat.le_of_lt hp)]
    exact (halike state hreached).bestOf_eq (hascii.sublist (List.drop_sublist p _))
  rw [lx.shows_runes run s hs opening script hlimit world]
  exact lx.shows_eq run true s hs rfl rfl rfl rfl rfl rfl hfinds
    (fun _ _ _ _ hp hfind => lx.task_find_pos s hp hfind) opening script hlimit world

/-- A word on which rules are not read alike shows which matcher it is. -/
theorem Lexer.readAlike_of_modesAgree {world : ω} (hagree : lx.ModesAgree υ world) {state : Text}
    (hreached : lx.states.Reached state) : ReadAlike (lx.rules.rulesFor state) := by
  intro w hascii hne
  have hpos : 0 < w.length := List.length_pos_iff.mpr hne
  obtain ⟨opening, hopening⟩ :
      ∃ opening : Talk Unit, (opening.leave lx.states States.initial).2 = state := by
    obtain rfl | hdeclared := hreached
    · exact ⟨.done (), rfl⟩
    · exact ⟨.begin state fun _ => .done (), by rw [Talk.leave, if_pos hdeclared]; rfl⟩
  let s : Source := .direct ⟨w, .ended⟩ true none
  let script : Script α η υ ω := ⟨fun _ _ world => .done ({}, world), fun _ _ world => .done world⟩
  have hlimit : s.pending.length < w.length + 1 := Nat.lt_succ_self _
  have hshown := hagree s opening script (w.length + 1) rfl hascii hlimit
  rw [lx.shows_runes run s rfl opening script hlimit world,
    lx.shows_bytes run hplain s rfl hascii opening script hlimit world, hopening] at hshown
  have hhead := congrArg (fun shown => shown.events.head?) hshown
  simp only [Account.shown] at hhead
  rw [(lx.byteTask s).head?_tokenize script _ state hpos,
    (lx.task s).head?_tokenize script _ state hpos]
    at hhead
  have hnext : (lx.byteTask s).next state 0 = (lx.task s).next state 0 := by
    refine Option.map_injective ?_ hhead
    rintro ⟨t, n⟩ ⟨t', n'⟩ heq
    obtain ⟨rfl, hcontext⟩ := Event.dispatched.inj heq
    have hspan := congrArg (·.span.stop) hcontext
    rw [Nat.add_left_cancel hspan]
  have hfind := Task.find_eq_of_next hnext
  rw [lx.task_find s hascii hplain state (Nat.zero_le _)] at hfind
  exact (find?_of_bestOf hne hfind).symm

end Agreement

/-- **The matchers agree just if the dialects do.** Of any lexer whose rules have plain patterns
that do not match the empty word: option `dfa` makes no difference to any scan of ASCII, with any
actions that only begin states, if and only if in every state that a scan can be in, of every word
the first rule that matches it is the same in both dialects. It is if the patterns are tidy. -/
theorem modes_agree_iff_read_alike {es : List (Event α υ)} {lx : Lexer α η} (run : Run {} es lx)
    (hplain : ∀ state, ∀ r ∈ lx.rules.rulesFor state, r.IsPlain) (world : ω) :
    (lx.ModesAgree υ world ↔
        ∀ state, lx.states.Reached state → ReadAlike (lx.rules.rulesFor state)) ∧
      ((∀ state, ∀ r ∈ lx.rules.rulesFor state,
          ∃ p : Plain .choice, p.nullable = false ∧ p.Tidy ∧ r.SpelledBy p) →
        lx.ModesAgree υ world) := by
  refine ⟨⟨fun hagree state hreached => lx.readAlike_of_modesAgree run hplain hagree hreached,
    fun halike => lx.modesAgree_of_readAlike run hplain halike world⟩, fun htidy => ?_⟩
  refine lx.modesAgree_of_readAlike run hplain (fun state _ w _ _ => ?_) world
  refine List.find?_congr fun r hr => ?_
  obtain ⟨p, hp, hptidy, hr⟩ := htidy state r hr
  exact hr.takes_eq hp hptidy w

/-! ## Two lexers -/

deriving instance DecidableEq for Rule

instance [DecidableEq α] (r : Rule α) (p : Plain .choice) : Decidable (r.SpelledBy p) :=
  inferInstanceAs (Decidable (compileRule false p.text r.action = .ok r))

theorem RuleTable.forall_rulesFor {t : RuleTable α} {P : Rule α → Prop}
    (h : ∀ e ∈ t.rules, ∀ r ∈ e.2, P r) (state : Text) : ∀ r ∈ t.rulesFor state, P r := by
  intro r hr
  unfold RuleTable.rulesFor at hr
  cases hl : t.rules.lookup state with
  | none =>
    rw [hl] at hr
    exact absurd hr List.not_mem_nil
  | some rules =>
    rw [hl] at hr
    obtain ⟨before, after, heq, -⟩ := List.lookup_eq_some_iff.mp hl
    refine h (state, rules) ?_ r hr
    rw [heq]
    exact List.mem_append_right _ List.mem_cons_self

/-- Actions that do nothing. -/
def idleScript : Script Unit Unit Unit Unit := ⟨fun _ _ _ => .done ({}, ()), fun _ _ _ => .done ()⟩

/-- The pattern `[b-d0-9]+x|a`, in whose class no ranges overlap. -/
def apartPattern : Plain .choice :=
  .or
    (.next
      (.set (.range ⟨'b', rfl⟩ ⟨'d', rfl⟩ (by decide)) [.range ⟨'0', rfl⟩ ⟨'9', rfl⟩ (by decide)])
      .plus (.last (.char ⟨'x', rfl⟩) .once))
    (.only (.last (.char ⟨'a', rfl⟩) .once))

/-- The pattern `[a-cb]`, in whose class one range lies inside of another one. -/
def overlappingPattern : Plain .choice :=
  .only (.last (.set (.range ⟨'a', rfl⟩ ⟨'c', rfl⟩ (by decide)) [.one ⟨'b', rfl⟩]) .once)

/-- A lexer with the one pattern and a default action. -/
def apart : Lexer Unit Unit := .configured [.rule apartPattern.text none, .defaultRule none]

/-- A lexer with the other pattern. -/
def overlapping : Lexer Unit Unit := .configured [.rule overlappingPattern.text none]

theorem apartPattern_tidy : apartPattern.Tidy := by
  refine ⟨?_, fun _ => false, ?_⟩
  · refine ⟨⟨?_, trivial⟩, trivial⟩
    show Apart [(98, 100), (48, 57)]
    simp [Apart]
  · refine ⟨⟨⟨fun _ => false, ?_⟩, rfl⟩, rfl⟩
    intro fold p h
    have hnone : Pattern.literalOf? (.set (unionSet [(98, 100), (48, 57)])) = none := by decide
    cases hnone.symm.trans h

set_option maxRecDepth 10000 in
theorem modes_agree_iff_read_alike_apart :
    (apart.shows true (.ofText "b7xzb0") (.done ()) idleScript 7 ()).outcome = .finished ∧
      ((contexts (apart.shows true (.ofText "b7xzb0") (.done ()) idleScript 7 ()).events).map
        fun c => c.text.shown) = ["b7x", "z", "b", "0"] ∧
      apart.ModesAgree Unit () := by
  have run : Run (υ := Unit) {} [] apart := (Run.nil {}).settings _
  have hspelled : ∀ state, ∀ r ∈ apart.rules.rulesFor state, r.SpelledBy apartPattern :=
    RuleTable.forall_rulesFor (by decide +kernel)
  refine ⟨by decide +kernel, by decide +kernel, (modes_agree_iff_read_alike run ?_ ()).2 ?_⟩
  · exact fun state r hr => ⟨apartPattern, rfl, hspelled state r hr⟩
  · exact fun state r hr => ⟨apartPattern, rfl, apartPattern_tidy, hspelled state r hr⟩

set_option maxRecDepth 10000 in
/-- Over bytes the range of `[a-cb]` that lies inside of the other one cuts it short. -/
theorem modes_differ_overlapping :
    (∀ state, ∀ r ∈ overlapping.rules.rulesFor state, r.IsPlain) ∧
      (overlapping.shows false (.ofText "c") (.done ()) idleScript 2 ()).outcome = .finished ∧
      (overlapping.shows true (.ofText "c") (.done ()) idleScript 2 ()).outcome =
        .failed (.noMatch ⟨1, "initial", 99, "c"⟩) ∧
      ¬ overlapping.ModesAgree Unit () := by
  have hspelled : ∀ state, ∀ r ∈ overlapping.rules.rulesFor state, r.SpelledBy overlappingPattern :=
    RuleTable.forall_rulesFor (by decide +kernel)
  have hrunes : (overlapping.shows false (.ofText "c") (.done ()) idleScript 2 ()).outcome =
      .finished := by
    decide +kernel
  have hbytes : (overlapping.shows true (.ofText "c") (.done ()) idleScript 2 ()).outcome =
      .failed (.noMatch ⟨1, "initial", 99, "c"⟩) := by
    decide +kernel
  refine ⟨fun state r hr => ⟨overlappingPattern, rfl, hspelled state r hr⟩, hrunes, hbytes,
    fun hagree => ?_⟩
  have hascii : InAscii (Source.ofText "c").pending :=
    List.forall_mem_singleton.mpr ⟨by decide, by decide⟩
  have hsame := hagree (.ofText "c") (.done ()) idleScript 2 rfl hascii (by decide)
  rw [hsame, hrunes] at hbytes
  cases hbytes

end Munch
