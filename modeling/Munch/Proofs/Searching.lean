import Munch.Proofs.Frame

/-!
# Searches

A search over runes asks the machine of the active state. A search over bytes is set up first: the
rest of the input is taken in as bytes, the rules of the state are compiled or found again, the text
is moved to the cursor, and there is a scanner for them.

* `Lexer.SettingUp`: the ways that setting up a search over bytes can go, a constructor for each.
* `Lexer.SetUp`, `Lexer.Searched`: what comes of setting up a search, and of the search.

Results:
* `Lexer.resume_longest`: an attempt finds the longest match, whatever trail there is.
* `Lexer.ready_byteRules`: compiled rules are those of the state now.
* `Lexer.setUp_byteSetup`: setting up a search keeps compiled rules, the text and a scanner.
* `Lexer.searched_search`: looking for a match comes to no more than `Looks` allows, and what is
  found has a rune.
-/

namespace Munch

variable {α η : Type}

namespace Lexer

/-! ## Races over bytes -/

theorem runeCount_pos {bytes : List UInt8} (h : bytes ≠ []) : 0 < Bytes.runeCount bytes := by
  obtain ⟨a, rest, rfl⟩ := List.exists_cons_of_ne_nil h
  exact Nat.succ_pos _

/-- A match that a race finds takes bytes behind those it began with. -/
theorem byteRace_length {text : Array UInt8} {fuel pos length : Nat} {best : Option Hit}
    {lanes : List Bytes.Lane} {hit : Hit}
    (h : Bytes.byteRace text fuel pos length best lanes = some hit) :
    best = some hit ∨ length < hit.length := by
  induction fuel generalizing pos length best lanes with
  | zero => exact .inl h
  | succ fuel ih =>
    rw [Bytes.byteRace] at h
    split at h
    · exact .inl h
    · split at h
      · obtain hbest | hlt := ih h
        · unfold better at hbest
          split at hbest
          · cases hbest
            exact .inr (Nat.lt_succ_self _)
          · exact .inl hbest
        · exact .inr (Nat.lt_of_succ_lt hlt)
      · exact .inl h

theorem byteScanner_longest_pos {s : Bytes.ByteScanner} {pos : Nat} {hit : Hit}
    (h : s.longest pos = some hit) : 0 < hit.length := by
  obtain hbest | hlt := byteRace_length h
  · cases hbest
  · exact hlt

/-- What a race begins with is what it comes to if no pattern accepts. -/
theorem byteRace_or (text : Array UInt8) (fuel pos length : Nat) (best : Option Hit)
    (lanes : List Bytes.Lane) :
    Bytes.byteRace text fuel pos length best lanes =
      (Bytes.byteRace text fuel pos length none lanes).or best := by
  induction fuel generalizing pos length best lanes with
  | zero => rfl
  | succ fuel ih =>
    rw [Bytes.byteRace, Bytes.byteRace]
    cases text[pos]? with
    | none => rfl
    | some b =>
      simp only
      split
      · -- the first to accept takes the place of what was there
        have hbetter (winner : Option Nat) :
            better winner (length + 1) best = (better winner (length + 1) none).or best := by
          cases winner <;> rfl
        rw [ih, hbetter, ← Option.or_assoc, ← ih]
      · rfl

/-- **An attempt finds the longest match**, whatever trail there is: text that was matched or left
out plays no part, and a pattern in hand is not taken for a match. -/
theorem resume_longest (s : Bytes.ByteScanner) (t : Bytes.Trail) (pos : Nat) :
    (s.resume t pos).1 = s.longest pos := by
  unfold Bytes.ByteScanner.resume
  by_cases hend : (t.failed && pos == s.text.size) = true
  · rw [if_pos hend]
    obtain ⟨-, hpos⟩ := Bool.and_eq_true_iff.mp hend
    rw [beq_iff_eq.mp hpos, Bytes.ByteScanner.longest, Bytes.ByteScanner.race, Nat.sub_self]
    rfl
  · have hrace (best : Option Hit) : s.race pos best = (s.longest pos).or best :=
      byteRace_or _ _ _ _ _ _
    rw [if_neg hend, hrace]
    cases hlongest : s.longest pos with
    | some hit =>
      have hpos := byteScanner_longest_pos hlongest
      rw [Option.some_or]
      simp only [if_neg (Nat.ne_of_gt hpos)]
    | none =>
      rw [Option.none_or]
      cases t.winner with
      | some winner => rfl
      | none =>
        simp only [Option.map_none]
        split <;> rfl

theorem attempt_longest (lx : Lexer α η) (u : ByteSetup α) : (lx.attempt u).1 = u.longest := by
  unfold attempt ByteSetup.longest
  rw [← resume_longest]

/-! ## Setting up a search over bytes -/

theorem bufferBytes_spec {lx : Lexer α η} {w : Window} (hw : lx.window = some w) :
    Looks lx (lx.bufferBytes w).2.2 ∧ (lx.bufferBytes w).2.2.window = some (lx.bufferBytes w).2.1 ∧
      (lx.bufferBytes w).2.2.bytes.text = some (lx.bufferBytes w).1 ∧
      (lx.bufferBytes w).2.2.phase = lx.phase := by
  unfold bufferBytes
  split
  next text htext => exact ⟨.refl, hw, htext, rfl⟩
  · refine ⟨?_, see_window _ _ _, rfl, see_phase _ _ _⟩
    have hbuffer := Looks.buffer .refl hw
    unfold see
    simp only
    split
    · exact (hbuffer.note _ _).note _ _
    · exact hbuffer.note _ _

/-- What comes of asking for the compiled rules of a state. -/
structure Ready (lx : Lexer α η) (state : Text)
    (result : Except (Search α) (ByteRules α) × Lexer α η) : Prop where
  looks : Looks lx result.2
  window : result.2.window = lx.window
  text : result.2.bytes.text = lx.bytes.text
  phase : result.2.phase = lx.phase
  kept : ∀ c, result.1 = .ok c → result.2.bytes.compiled.lookup state = some c
  rules : ∀ c, result.1 = .ok c → c.rules = lx.rules.rulesFor state
  failed : ∀ s, result.1 = .error s → ∀ r n, s ≠ .found r n

theorem ready_compileRules (lx : Lexer α η) (state : Text) :
    Ready lx state (lx.compileRules state) := by
  have hnote : Looks lx (lx.note .debug (.compiling state (lx.rules.rulesFor state).length)) :=
    Looks.refl.note _ _
  have hkeep (ps : List Program) (hps : Compiles (lx.rules.rulesFor state) ps) : Ready lx state
      ((lx.note .debug (.compiling state (lx.rules.rulesFor state).length)).keepRules state
        ⟨(lx.rules.rulesFor state).map (·.bytePattern), lx.rules.rulesFor state, ps⟩
        (lx.bytes.scanners.filter (·.1 != state))) := by
    refine ⟨hnote.compile hps, rfl, rfl, rfl, ?_, ?_, by rintro s ⟨⟩⟩
    · rintro c ⟨⟩
      exact (RuleTable.lookup_update state state _ _).trans (if_pos rfl)
    · rintro c ⟨⟩
      rfl
  have hrefuse (e : Error) : Ready lx state
      ((lx.note .debug (.compiling state (lx.rules.rulesFor state).length)).refuseRules
        state e) := by
    refine ⟨hnote.note _ _, rfl, rfl, rfl, by rintro c ⟨⟩, by rintro c ⟨⟩, ?_⟩
    rintro s ⟨⟩ r n ⟨⟩
  unfold compileRules
  simp only
  split
  next hnil => exact hkeep [] (.inl ⟨List.isEmpty_iff.mp hnil, rfl⟩)
  · split
    next ps hps => exact hkeep ps (.inr hps)
    · exact hrefuse _
    · exact hrefuse _
    · refine ⟨hnote, rfl, rfl, rfl, by rintro c ⟨⟩, by rintro c ⟨⟩, ?_⟩
      rintro s ⟨⟩ r n ⟨⟩

/-- **Compiled rules are those of the state now**, whether they were there before or not. -/
theorem ready_byteRules (lx : Lexer α η) (state : Text) : Ready lx state (lx.byteRules state) := by
  unfold byteRules
  simp only
  split
  next c hc =>
    split
    next hf =>
      refine ⟨Looks.refl.reuse hc hf, rfl, rfl, rfl, ?_, ?_, by rintro s ⟨⟩⟩
      · rintro c ⟨⟩
        exact (RuleTable.lookup_update state state _ _).trans (if_pos rfl)
      · rintro c ⟨⟩
        rfl
    · exact ready_compileRules lx state
  · exact ready_compileRules lx state

/-- What comes of asking for the scanner of a state. -/
structure Scanning (lx : Lexer α η) (state : Text) (result : Bytes.ByteScanner × Lexer α η) :
    Prop where
  looks : Looks lx result.2
  window : result.2.window = lx.window
  phase : result.2.phase = lx.phase
  compiled : result.2.bytes.compiled.lookup state = lx.bytes.compiled.lookup state
  text : result.2.bytes.text = lx.bytes.text
  scanner : result.2.bytes.scanners.lookup state = some result.1

theorem scanning_byteScanner (lx : Lexer α η) {state : Text} {c : ByteRules α}
    {text : Bytes.ByteText} (hc : lx.bytes.compiled.lookup state = some c)
    (htext : lx.bytes.text = some text) :
    Scanning lx state (lx.byteScanner state c text) := by
  unfold byteScanner
  split
  next s hs => exact ⟨.refl, rfl, rfl, rfl, rfl, hs⟩
  · refine ⟨Looks.refl.scan hc htext, rfl, rfl, rfl, rfl, ?_⟩
    exact (RuleTable.lookup_update state state _ _).trans (if_pos rfl)

/-- A scanner is for the compiled rules and the text, as soon as the lexer has the text. -/
theorem Ready.scanning {lx lx' moved : Lexer α η} {state : Text} {c : ByteRules α}
    {text : Bytes.ByteText} (h : Ready lx state (.ok c, lx'))
    (hmoved : moved = { lx' with bytes := { lx'.bytes with text := some text } }) :
    Scanning moved state (moved.byteScanner state c text) := by
  subst hmoved
  exact scanning_byteScanner _ (h.kept c rfl) rfl

/-- The ways that setting up a search over bytes goes on from `lx`, which has the input as the bytes
`text` and the window `w`: the patterns are bad, or there are no rules; or the text is moved to the
cursor, and then nothing is left of it, or a scanner gets to work. -/
inductive SettingUp (lx : Lexer α η) (state : Text) (text : Bytes.ByteText) (w : Window) :
    Except (Search α) (ByteSetup α) × Window × Lexer α η → Prop
  | refused {s : Search α} {lx' : Lexer α η} (hrules : lx.byteRules state = (.error s, lx')) :
      SettingUp lx state text w (.error s, w, lx')
  | without {c : ByteRules α} {lx' : Lexer α η} (hrules : lx.byteRules state = (.ok c, lx'))
      (hnil : c.rules = []) : SettingUp lx state text w (.error .nothing, w, lx')
  | ended {c : ByteRules α} {lx' : Lexer α η} (hrules : lx.byteRules state = (.ok c, lx'))
      (hne : c.rules ≠ [])
      (hend : (text.moveTo w.offset).bytes.size ≤ (text.moveTo w.offset).bytePos) :
      SettingUp lx state text w (.error .nothing, w,
        { lx' with bytes := { lx'.bytes with text := some (text.moveTo w.offset) } })
  | ready {c : ByteRules α} {lx' moved : Lexer α η} (hrules : lx.byteRules state = (.ok c, lx'))
      (hne : c.rules ≠ []) (hlt : (text.moveTo w.offset).bytePos <
        (text.moveTo w.offset).bytes.size)
      (hmoved : moved =
        { lx' with bytes := { lx'.bytes with text := some (text.moveTo w.offset) } }) :
      SettingUp lx state text w
        (.ok ⟨c, text.moveTo w.offset, (moved.byteScanner state c (text.moveTo w.offset)).1⟩, w,
          (moved.byteScanner state c (text.moveTo w.offset)).2)

theorem settingUp_byteSetup {lx lx₁ : Lexer α η} {w w₁ : Window} {text : Bytes.ByteText}
    (hbuffer : lx.bufferBytes w = (text, w₁, lx₁)) :
    SettingUp lx₁ lx.context.state text w₁ (lx.byteSetup w) := by
  unfold byteSetup
  rcases hrules : lx₁.byteRules lx.context.state with ⟨s | c, lx₂⟩
  all_goals simp only [hbuffer, hrules]
  · exact .refused hrules
  · split
    next hnil => exact .without hrules (List.isEmpty_iff.mp hnil)
    next hne =>
      have hne : c.rules ≠ [] := fun hnil => hne (List.isEmpty_iff.mpr hnil)
      split
      next hend => exact .ended hrules hne hend
      next hlt => exact .ready hrules hne (Nat.lt_of_not_le hlt) rfl

/-- Setting up a search leaves the window as it is after buffering. -/
theorem byteSetup_window (lx : Lexer α η) (w : Window) :
    (lx.byteSetup w).2.1 = (lx.bufferBytes w).2.1 := by
  have hgoes := settingUp_byteSetup (rfl : lx.bufferBytes w = _)
  generalize lx.byteSetup w = result at hgoes ⊢
  cases hgoes <;> rfl

/-- What comes of setting up a search over bytes. -/
structure SetUp (lx : Lexer α η) (result : Except (Search α) (ByteSetup α) × Window × Lexer α η) :
    Prop where
  looks : Looks lx result.2.2
  window : result.2.2.window = some result.2.1
  phase : result.2.2.phase = lx.phase
  failed : ∀ s, result.1 = .error s → ∀ r n, s ≠ .found r n
  rules : ∀ u, result.1 = .ok u →
    result.2.2.bytes.compiled.lookup lx.context.state = some u.rules ∧
      u.rules.rules = lx.rules.rulesFor lx.context.state ∧ u.rules.rules ≠ []
  text : ∀ u, result.1 = .ok u →
    result.2.2.bytes.text = some u.text ∧ u.text.bytePos < u.text.bytes.size
  scanner : ∀ u, result.1 = .ok u →
    result.2.2.bytes.scanners.lookup lx.context.state = some u.scanner

theorem setUp_byteSetup {lx : Lexer α η} {w : Window} (hw : lx.window = some w) :
    SetUp lx (lx.byteSetup w) := by
  obtain ⟨hlooks₁, hwin₁, htext₁, hphase₁⟩ := bufferBytes_spec hw
  rcases hbuffer : lx.bufferBytes w with ⟨text, w₁, lx₁⟩
  rw [hbuffer] at hlooks₁ hwin₁ htext₁ hphase₁
  have hready := ready_byteRules lx₁ lx.context.state
  have hlooks₂ := hlooks₁.trans hready.looks
  have hwin₂ := hready.window.trans hwin₁
  have hphase₂ := hready.phase.trans hphase₁
  have hnothing (s : Search α) (hs : (.error .nothing : Except (Search α) (ByteSetup α)) = .error s)
      (r : Rule α) (n : Nat) : s ≠ .found r n := by
    rintro rfl
    cases hs
  have hgoes := settingUp_byteSetup hbuffer
  generalize lx.byteSetup w = result at hgoes
  cases hgoes with
  | refused hrules =>
    rw [hrules] at hready hlooks₂ hwin₂ hphase₂
    refine ⟨hlooks₂, hwin₂, hphase₂, ?_, nofun, nofun, nofun⟩
    rintro s ⟨⟩
    exact hready.failed _ rfl
  | without hrules =>
    rw [hrules] at hlooks₂ hwin₂ hphase₂
    exact ⟨hlooks₂, hwin₂, hphase₂, hnothing, nofun, nofun, nofun⟩
  | ended hrules =>
    rw [hrules] at hready hlooks₂ hwin₂ hphase₂
    have hlooks₃ := hlooks₂.move (hready.text.trans htext₁) hwin₂
    exact ⟨hlooks₃, hwin₂, hphase₂, hnothing, nofun, nofun, nofun⟩
  | @ready c lx₂ _ hrules hne hlt hmoved =>
    rw [hrules] at hready hlooks₂ hwin₂ hphase₂
    have hlooks₃ := hlooks₂.move (hready.text.trans htext₁) hwin₂
    have hscan := hready.scanning hmoved
    subst hmoved
    refine ⟨hlooks₃.trans hscan.looks, hscan.window.trans hwin₂, hscan.phase.trans hphase₂, nofun,
      ?_, ?_, ?_⟩
    · rintro u ⟨⟩
      refine ⟨hscan.compiled.trans (hready.kept c rfl), ?_, hne⟩
      rw [hready.rules c rfl, hlooks₁.kept.rules]
    · rintro u ⟨⟩
      exact ⟨hscan.text, hlt⟩
    · rintro u ⟨⟩
      exact hscan.scanner

/-! ## Searches -/

/-- What comes of looking for a match, which leaves the lexer with the window it read. -/
structure Searched (lx : Lexer α η) (result : Search α × Window × Lexer α η) : Prop where
  looks : Looks lx result.2.2
  window : result.2.2.window = some result.2.1
  phase : result.2.2.phase = lx.phase
  found : ∀ r n, result.1 = .found r n → 0 < n

theorem ofHit_eq_found {hit : Option (Rule α × Nat)} {r : Rule α} {n : Nat} :
    Search.ofHit hit = .found r n ↔ hit = some (r, n) := by
  unfold Search.ofHit
  split <;> simp

/-- What a search over bytes comes to is the longest match of its setup. -/
theorem searchBytes_eq (lx : Lexer α η) (w : Window) :
    lx.searchBytes w = match lx.byteSetup w with
      | (.error s, w, lx) => (s, w, lx)
      | (.ok u, w, lx) => (.ofHit u.longest, w, (lx.attempt u).2) := by
  unfold searchBytes
  rcases lx.byteSetup w with ⟨s | u, w', lx'⟩
  · rfl
  · simp only [← attempt_longest lx' u]

/-- An attempt leaves the window and the text as they were set up. -/
theorem searchBytes_setup (lx : Lexer α η) (w : Window) :
    (lx.searchBytes w).2.1 = (lx.byteSetup w).2.1 ∧
      (lx.searchBytes w).2.2.bytes.text = (lx.byteSetup w).2.2.bytes.text := by
  rw [searchBytes_eq]
  rcases lx.byteSetup w with ⟨e | u, w₁, lx₁⟩
  · exact ⟨rfl, rfl⟩
  · exact ⟨rfl, rfl⟩

theorem searched_searchBytes {lx : Lexer α η} {w : Window} (hw : lx.window = some w) :
    Searched lx (lx.searchBytes w) := by
  have hsetup := setUp_byteSetup hw
  rw [searchBytes_eq]
  rcases hresult : lx.byteSetup w with ⟨s | u, w', lx'⟩
  all_goals rw [hresult] at hsetup
  · exact ⟨hsetup.looks, hsetup.window, hsetup.phase, fun r n hr =>
      absurd hr (hsetup.failed s rfl r n)⟩
  · refine ⟨hsetup.looks.attempt u, hsetup.window, hsetup.phase, fun r n hr => ?_⟩
    obtain ⟨hit, hhit, hmap⟩ := Option.bind_eq_some_iff.mp (ofHit_eq_found.mp hr)
    obtain ⟨rule, -, heq⟩ := Option.map_eq_some_iff.mp hmap
    cases heq
    refine runeCount_pos fun hnil => ?_
    have hpos := byteScanner_longest_pos hhit
    have hlt := (hsetup.text u rfl).2
    rw [Array.toList_eq_nil_iff, Array.extract_eq_empty_iff] at hnil
    omega

theorem searched_searchRunes {lx : Lexer α η} {w : Window} (hw : lx.window = some w) {R : List Rune}
    {stop : Stop} (ho : w.Over R stop) : Searched lx (lx.searchRunes w) := by
  obtain ⟨hreads, hpos⟩ := lx.runes.longest_window lx.rules lx.context.state ho
  have hlooks := (Looks.refl : Looks lx lx).runes lx.context.state w
  refine ⟨hlooks.see hw hreads, see_window _ _ _, see_phase _ _ _, fun r n hr => ?_⟩
  exact (hpos r n (ofHit_eq_found.mp hr)).1

theorem searched_search {lx : Lexer α η} {w : Window} (hw : lx.window = some w) {R : List Rune}
    {stop : Stop} (ho : w.Over R stop) : Searched lx (lx.search w) := by
  unfold search
  split
  · exact searched_searchBytes hw
  · exact searched_searchRunes hw ho

end Lexer

end Munch
