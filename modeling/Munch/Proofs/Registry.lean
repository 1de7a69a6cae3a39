import Mathlib.Data.List.Basic
import Mathlib.Data.List.Induction
import Munch.Proofs.Run
import Munch.Proofs.Specification

/-!
# The rules of a history

Rules are registered one call after the other, and what a call does depends on the calls before it:
on the states that were declared then, the definitions that were made then, and the options that
were on then. Here the rules of a state are read off the history, without a lexer.

* `Registry.classOf`, `Registry.fragments`, `Registry.caseless`: states, definitions and options,
  each as the calls so far leave them.
* `Registry.ruleOf`: the rule of a call, and whether there is one.
* `Registry.rulesAdded`, `Registry.defaultsAdded`: what the calls of a history add to a state, in
  their order.
* `Registry.merged`: rules with the same pattern made one, in the place of the first, with what the
  last says.

Results:
* `Registry.ruleFor_reads`: the rule of a call, by what its specification is read as.
* `Registry.gather_concat`, `Registry.classOf_concat`, `Registry.fragments_define`: what one call
  more changes.
* `Registry.merged_concat`: adding one more rule puts it in the place of a rule with its pattern.
* `Registry.map_pattern_merged`, `Registry.lastWith_of_mem_merged`: the patterns of merged rules,
  and what each of these rules is.
-/

namespace Munch

open Lexer

variable {α η β : Type}

/-! ## What a history says -/

/-- The class that a call declares a state with. -/
def Setting.classFor? (state : Text) : Setting α η → Option StateClass
  | .declare name c => if name = state then some c else none
  | _ => none

/-- Does the call define this name? -/
def Setting.defines (name : Text) : Setting α η → Bool
  | .define name' _ => name' == name
  | _ => false

/-- What a call says on folding case. -/
def Setting.caseless? : Setting α η → Option Bool
  | .option name on => if name = Text.ofString "caseless" then some on else none
  | _ => none

/-- Does the call register a rule, or a default rule? -/
def Setting.addsRule : Setting α η → Bool
  | .rule _ _ => true
  | .defaultRule _ => true
  | _ => false

namespace Registry

/-- What each call of a history adds, given the calls before it. -/
def gather (f : List (Setting α η) → Setting α η → Option β) (settings : List (Setting α η)) :
    List β :=
  (List.range settings.length).filterMap fun i => settings[i]?.bind (f (settings.take i))

/-- The class of a state: that of its last declaration. At first only `initial` has one. -/
def classOf (past : List (Setting α η)) (state : Text) : Option StateClass :=
  (past.filterMap (·.classFor? state)).getLast?.or
    (if state = States.initial then some .inclusive else none)

/-- A definition counts if its name was not defined before. -/
def fragmentOf (past : List (Setting α η)) : Setting α η → Option (Text × Text)
  | .define name fragment => if past.any (·.defines name) then none else some (name, fragment)
  | _ => none

/-- The definitions so far. -/
def fragments (past : List (Setting α η)) : Definitions := ⟨gather fragmentOf past⟩

/-- Is case folded by now? -/
def caseless (past : List (Setting α η)) : Bool :=
  (past.filterMap (·.caseless?)).getLast?.getD false

/-- Are all states that a rule names declared by now? -/
def admits (past : List (Setting α η)) : Rule.Target → Bool
  | .named names => names.all fun state => (classOf past state).isSome
  | _ => true

/-- Is a rule that is registered now for this state? -/
def reaches (past : List (Setting α η)) (state : Text) : Rule.Target → Bool
  | .unnamed => classOf past state = some .inclusive
  | .every => (classOf past state).isSome
  | .named names => names.contains state

/-- The rule that a call registers now, if it succeeds. -/
def ruleOf (past : List (Setting α η)) (spec : Text) (action : Option α) : Option (Rule α) :=
  if admits past (Rule.splitSpec spec).1 then
    (compileRule (caseless past) ((fragments past).expand (Rule.splitSpec spec).2) action).toOption
  else none

/-- The rule that a call adds to a state. -/
def ruleFor (state : Text) (past : List (Setting α η)) : Setting α η → Option (Rule α)
  | .rule spec action =>
    if reaches past state (Rule.splitSpec spec).1 then ruleOf past spec action else none
  | _ => none

/-- The default action that a call gives to a state. -/
def defaultOf (state : Text) (past : List (Setting α η)) : Setting α η → Option (Option α)
  | .defaultRule action => if classOf past state = some .inclusive then some action else none
  | _ => none

/-- The rules that the calls of a history add to a state. -/
def rulesAdded (state : Text) (settings : List (Setting α η)) : List (Rule α) :=
  gather (ruleFor state) settings

/-- The default actions that the calls of a history give to a state. -/
def defaultsAdded (state : Text) (settings : List (Setting α η)) : List (Option α) :=
  gather (defaultOf state) settings

/-- The last of the rules with a pattern. -/
def lastWith (rs : List (Rule α)) (pattern : Text) : Option (Rule α) :=
  rs.reverse.find? (·.pattern == pattern)

/-- For each pattern its last rule, in the order in which the patterns came up. -/
def merged (rs : List (Rule α)) : List (Rule α) :=
  (rs.map (·.pattern)).eraseDups.filterMap (lastWith rs)

variable (past : List (Setting α η)) (c : Setting α η)

/-- **The rule of a call, by what its specification is read as.** -/
theorem ruleFor_reads {spec pattern : Text} {target : Rule.Target}
    (h : Rule.Reads spec target pattern) (state : Text) (action : Option α) :
    ruleFor state past (.rule spec action) =
      if reaches past state target && admits past target then
        (compileRule (caseless past) ((fragments past).expand pattern) action).toOption
      else none := by
  rw [ruleFor, ruleOf, h.split]
  cases reaches past state target <;> rfl

/-! ## One call more -/

theorem gather_concat (f : List (Setting α η) → Setting α η → Option β) :
    gather f (past ++ [c]) = gather f past ++ (f past c).toList := by
  have hbefore : ∀ i ∈ List.range past.length,
      ((past ++ [c])[i]?.bind (f ((past ++ [c]).take i))) = past[i]?.bind (f (past.take i)) := by
    intro i hi
    have hlt : i < past.length := List.mem_range.mp hi
    rw [List.getElem?_append_left hlt, List.take_append_of_le_length (Nat.le_of_lt hlt)]
  unfold gather
  rw [List.length_append, List.length_singleton, List.range_succ, List.filterMap_append,
    List.filterMap_congr hbefore]
  cases hf : f past c <;> simp [hf]

theorem mem_gather {f : List (Setting α η) → Setting α η → Option β} {b : β} :
    b ∈ gather f past ↔ ∃ (i : Nat) (c : Setting α η), past[i]? = some c ∧
      f (past.take i) c = some b := by
  unfold gather
  simp only [List.mem_filterMap, List.mem_range, Option.bind_eq_some_iff]
  constructor
  · rintro ⟨i, -, c, hc, hb⟩
    exact ⟨i, c, hc, hb⟩
  · rintro ⟨i, c, hc, hb⟩
    exact ⟨i, (List.getElem?_eq_some_iff.mp hc).1, c, hc, hb⟩

theorem classOf_concat (state : Text) :
    classOf (past ++ [c]) state = (c.classFor? state).or (classOf past state) := by
  unfold classOf
  rw [List.filterMap_append, List.getLast?_append, Option.or_assoc]
  cases hc : c.classFor? state <;> simp [hc]

/-- Calls that register no rule add nothing to any state. -/
theorem adds_nothing {c : Setting α η} (hc : c.addsRule = false) (state : Text) :
    ruleFor state past c = none ∧ defaultOf state past c = none := by
  cases c with
  | rule => cases hc
  | defaultRule => cases hc
  | _ => exact ⟨rfl, rfl⟩

theorem caseless_concat : caseless (past ++ [c]) = c.caseless?.getD (caseless past) := by
  unfold caseless
  rw [List.filterMap_append, List.getLast?_append]
  cases hc : c.caseless? <;> simp [hc]

theorem lookup_fragmentOf (name : Text) :
    (List.lookup name (fragmentOf past c).toList).isSome =
      (c.defines name && !past.any (·.defines name)) := by
  cases c with
  | define name' fragment =>
    rw [fragmentOf,
      show (Setting.define name' fragment : Setting α η).defines name = (name' == name) from rfl]
    by_cases hname : name' = name
    · subst hname
      cases past.any (·.defines name') <;> simp
    · have hne : (name == name') = false := beq_eq_false_iff_ne.mpr (Ne.symm hname)
      cases past.any (·.defines name') <;> simp [List.lookup_cons, hne, hname]
  | _ => rfl

/-- A name has a definition if a call defined it. -/
theorem find?_fragments (name : Text) :
    ((fragments past).find? name).isSome = past.any (·.defines name) := by
  unfold fragments Definitions.find?
  induction past using List.reverseRecOn with
  | nil => rfl
  | append_singleton past c ih =>
    rw [gather_concat, List.lookup_append, Option.isSome_or, ih, lookup_fragmentOf, List.any_append]
    cases past.any (·.defines name) <;> simp

/-- Calls that define nothing leave the definitions as they are. -/
theorem fragments_concat {c : Setting α η} (hc : fragmentOf past c = none) :
    fragments (past ++ [c]) = fragments past := by
  rw [fragments, fragments, gather_concat, hc, Option.toList_none, List.append_nil]

theorem fragments_define (name fragment : Text) :
    fragments (past ++ [.define name fragment]) =
      (((fragments past).define? name fragment).getD (fragments past)) := by
  have hfind := find?_fragments past name
  unfold Definitions.define?
  rw [fragments, gather_concat]
  cases hname : (fragments past).find? name with
  | none =>
    rw [hname] at hfind
    simp [fragmentOf, ← hfind, fragments]
  | some old =>
    rw [hname] at hfind
    simp [fragmentOf, ← hfind, fragments]

end Registry

/-! ## Rules with the same pattern -/

namespace RuleTable

/-- Placing a rule in a list that is given by its patterns. -/
theorem place_filterMap {f : Text → Option (Rule α)} {keys : List Text}
    (hf : ∀ p ∈ keys, ∃ s, f p = some s ∧ s.pattern = p) (hnodup : keys.Nodup) (r : Rule α) :
    place r (keys.filterMap f) =
      (if r.pattern ∈ keys then keys else keys ++ [r.pattern]).filterMap
        fun p => if r.pattern = p then some r else f p := by
  induction keys with
  | nil => simp [place]
  | cons key keys ih =>
    obtain ⟨s, hs, rfl⟩ := hf key List.mem_cons_self
    obtain ⟨hnotin, hnodup⟩ := List.nodup_cons.mp hnodup
    have hrest := ih (fun p hp => hf p (List.mem_cons_of_mem _ hp)) hnodup
    rw [List.filterMap_cons_some hs, place]
    by_cases hsame : s.pattern = r.pattern
    · -- the patterns that follow are others
      have hothers : keys.filterMap (fun p => if r.pattern = p then some r else f p) =
          keys.filterMap f :=
        by
        refine List.filterMap_congr fun p hp => if_neg ?_
        rintro rfl
        exact hnotin (hsame ▸ hp)
      simp only [if_pos hsame,
        if_pos (show r.pattern ∈ s.pattern :: keys from hsame ▸ List.mem_cons_self),
        List.filterMap_cons, if_pos hsame.symm, hothers]
    · have hne : r.pattern ≠ s.pattern := fun h => hsame h.symm
      have hhead : (if r.pattern = s.pattern then some r else f s.pattern) = some s := by
        rw [if_neg hne, hs]
      rw [if_neg hsame, hrest]
      by_cases hin : r.pattern ∈ keys
      · simp only [if_pos hin, if_pos (List.mem_cons_of_mem s.pattern hin), List.filterMap_cons,
          hhead]
      · have hnot : r.pattern ∉ s.pattern :: keys := by simp [hin, hne]
        simp only [if_neg hin, if_neg hnot, List.cons_append, List.filterMap_cons, hhead]

/-- Placing a rule twice is placing it once. -/
theorem place_place (r : Rule α) (rs : List (Rule α)) : place r (place r rs) = place r rs := by
  induction rs with
  | nil => simp [place]
  | cons s rs ih =>
    by_cases hsame : s.pattern = r.pattern
    · simp [place, hsame]
    · simp [place, hsame, ih]

theorem rulesFor_put (t : RuleTable α) (state state' : Text) (r : Rule α) :
    (t.put state r).rulesFor state' = if state' = state then place r (t.rulesFor state)
      else t.rulesFor state' := by
  unfold rulesFor put
  rw [lookup_update]
  split <;> rfl

theorem defaultFor_putDefault (t : RuleTable α) (state state' : Text) (action : Option α) :
    (t.putDefault state action).defaultFor state' =
      if state' = state then some action else t.defaultFor state' := by
  unfold defaultFor putDefault
  rw [lookup_update]

/-- A rule that is put for several states is placed once for each of them, however often it is
named. -/
theorem rulesFor_foldl_put (states : List Text) (t : RuleTable α) (state : Text) (r : Rule α) :
    (states.foldl (fun t s => t.put s r) t).rulesFor state =
      if state ∈ states then place r (t.rulesFor state) else t.rulesFor state := by
  induction states generalizing t with
  | nil => simp
  | cons s states ih =>
    rw [List.foldl_cons, ih, rulesFor_put]
    by_cases hs : state = s
    · subst hs
      simp [place_place]
    · simp [hs]

theorem defaultFor_foldl_put (states : List Text) (t : RuleTable α) (state : Text) (r : Rule α) :
    (states.foldl (fun t s => t.put s r) t).defaultFor state = t.defaultFor state := by
  induction states generalizing t with
  | nil => rfl
  | cons s states ih => exact ih _

theorem defaultFor_foldl_putDefault (states : List Text) (t : RuleTable α) (state : Text)
    (action : Option α) :
    (states.foldl (fun t s => t.putDefault s action) t).defaultFor state =
      if state ∈ states then some action else t.defaultFor state := by
  induction states generalizing t with
  | nil => simp
  | cons s states ih =>
    rw [List.foldl_cons, ih, defaultFor_putDefault]
    by_cases hs : state = s
    · subst hs
      simp
    · simp [hs]

theorem rulesFor_foldl_putDefault (states : List Text) (t : RuleTable α) (state : Text)
    (action : Option α) :
    (states.foldl (fun t s => t.putDefault s action) t).rulesFor state = t.rulesFor state := by
  induction states generalizing t with
  | nil => rfl
  | cons s states ih => exact ih _

end RuleTable

namespace Registry

theorem lastWith_concat (rs : List (Rule α)) (r : Rule α) (pattern : Text) :
    lastWith (rs ++ [r]) pattern = if r.pattern = pattern then some r else lastWith rs pattern := by
  unfold lastWith
  rw [List.reverse_append, List.reverse_singleton, List.singleton_append, List.find?_cons]
  by_cases hsame : r.pattern = pattern
  · simp [hsame]
  · simp [hsame, beq_eq_false_iff_ne.mpr hsame]

theorem pattern_of_lastWith {rs : List (Rule α)} {pattern : Text} {r : Rule α}
    (h : lastWith rs pattern = some r) : r.pattern = pattern := by
  unfold lastWith at h
  exact beq_iff_eq.mp (List.find?_some h :)

/-- A pattern of a rule has a last rule, with this pattern. -/
theorem lastWith_mem {rs : List (Rule α)} {pattern : Text} (h : pattern ∈ rs.map (·.pattern)) :
    ∃ r, lastWith rs pattern = some r ∧ r.pattern = pattern := by
  obtain ⟨r, hr, hpattern⟩ := List.mem_map.mp h
  have hsome : (lastWith rs pattern).isSome := by
    rw [lastWith, List.find?_isSome]
    exact ⟨r, List.mem_reverse.mpr hr, beq_iff_eq.mpr hpattern⟩
  obtain ⟨last, hlast⟩ := Option.isSome_iff_exists.mp hsome
  exact ⟨last, hlast, pattern_of_lastWith hlast⟩

theorem eraseDups_concat (keys : List Text) (key : Text) :
    (keys ++ [key]).eraseDups = if key ∈ keys.eraseDups then keys.eraseDups
      else keys.eraseDups ++ [key] := by
  rw [List.eraseDups_append]
  by_cases hin : key ∈ keys <;> simp [List.removeAll, List.eraseDups_cons, hin]

theorem nodup_eraseDups (keys : List Text) : keys.eraseDups.Nodup := by
  induction keys using List.reverseRecOn with
  | nil => exact .nil
  | append_singleton keys key ih =>
    rw [eraseDups_concat]
    split
    · exact ih
    next hnotin =>
      refine List.nodup_append.mpr ⟨ih, by simp, ?_⟩
      rintro key' hin _ hlast rfl
      exact hnotin (List.mem_singleton.mp hlast ▸ hin)

/-- **One more rule takes the place of a rule with its pattern**, or comes last. -/
theorem merged_concat (rs : List (Rule α)) (r : Rule α) :
    merged (rs ++ [r]) = RuleTable.place r (merged rs) := by
  have hkeys : ∀ p ∈ (rs.map (·.pattern)).eraseDups, ∃ s, lastWith rs p = some s ∧ s.pattern = p :=
    fun p hp => lastWith_mem (List.mem_eraseDups.mp hp)
  unfold merged
  rw [RuleTable.place_filterMap hkeys (nodup_eraseDups _), List.map_append, List.map_singleton,
    eraseDups_concat]
  exact List.filterMap_congr fun p _ => lastWith_concat rs r p

/-- Merging keeps the patterns, each once. -/
theorem map_pattern_merged (rs : List (Rule α)) :
    (merged rs).map (·.pattern) = (rs.map (·.pattern)).eraseDups := by
  have hkeys : ∀ p ∈ (rs.map (·.pattern)).eraseDups, (lastWith rs p).map (·.pattern) = some p := by
    intro p hp
    obtain ⟨r, hr, hpattern⟩ := lastWith_mem (List.mem_eraseDups.mp hp)
    rw [hr, Option.map_some, hpattern]
  unfold merged
  rw [List.map_filterMap, List.filterMap_congr hkeys, List.filterMap_some]

theorem lastWith_of_mem_merged {rs : List (Rule α)} {r : Rule α} (h : r ∈ merged rs) :
    lastWith rs r.pattern = some r := by
  obtain ⟨p, -, hp⟩ := List.mem_filterMap.mp h
  rwa [pattern_of_lastWith hp]

end Registry

end Munch
