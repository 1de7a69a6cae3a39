import Munch.Proofs.Attempts

/-!
# What a match over bytes covers

The scanner of a state finds a number of bytes, and a step consumes a number of runes. A pattern
over bytes may match a part of the encoding of a rune, and each byte of such a part counts as a
rune. A step then consumes more than what was found, or breaks down as there is not so much.

* `Lexer.byteHit`: what the scanner finds in an attempt, counted in bytes.
* `Bytes.Covers rs n size`: there are `n` runes, and just `size` bytes in them.

Results:
* `Lexer.Fresh.byteHit_for`: a hit is for a rule of the state, and no longer than the text.
* **`byte_match_covers_iff`**: the runes of a match are those of its hit iff the hit ends between
  two runes.
* `byte_match_overruns`: hits that end within a rune.
-/

namespace Munch

open Lexer

variable {α η υ ω : Type}

namespace Bytes

/-- There are `n` runes at the front of `rs`, one at least, and just `size` bytes in them. -/
structure Covers (rs : List Rune) (n size : Nat) : Prop where
  pos : 1 ≤ n
  length_le : n ≤ rs.length
  size : (encode (rs.take n)).length = size

namespace Cut

variable {rs : List Rune} {size whole : Nat} {part : List UInt8}

/-- The runes that are counted before a cut have all the bytes there, if not more. -/
theorem size_le (h : Cut rs size whole part) :
    size ≤ (encode (rs.take (whole + part.length))).length := by
  by_cases hpart : part = []
  · subst hpart
    exact Nat.le_of_eq h.size.symm
  · have hpos := List.length_pos_of_ne_nil hpart
    have hmore := length_encode_take_le rs (show whole + 1 ≤ whole + part.length by omega)
    exact Nat.le_trans (Nat.le_of_lt (h.size_lt hpart)) hmore

/-- **The runes that are counted before a cut are there, and end with it, iff the cut is between two
runes.** -/
theorem covers_iff (h : Cut rs size whole part) (hpos : 0 < size) :
    Covers rs (whole + part.length) size ↔ ∃ k, (encode (rs.take k)).length = size := by
  constructor
  · intro hcovers
    exact ⟨_, hcovers.size⟩
  · intro hbetween
    obtain rfl := h.between_iff.mp hbetween
    refine ⟨Nat.pos_of_ne_zero ?_, h.whole_le, h.size⟩
    rintro rfl
    exact absurd h.size (Nat.ne_of_lt hpos)

end Cut

/-! ## Programs for all patterns -/

theorem length_of_mapM {β γ : Type} {f : β → Option γ} {xs : List β} {ys : List γ}
    (h : xs.mapM f = some ys) : ys.length = xs.length := by
  induction xs generalizing ys with
  | nil =>
    cases h
    rfl
  | cons x xs ih =>
    rw [List.mapM_cons] at h
    obtain ⟨y, -, h⟩ := Option.bind_eq_some_iff.mp h
    obtain ⟨rest, hrest, heq⟩ := Option.bind_eq_some_iff.mp h
    cases heq
    rw [List.length_cons, List.length_cons, ih hrest]

/-- There is a program for each pattern. -/
theorem length_of_compile {patterns : List Text} {ps : List Program}
    (h : compile patterns = .programs ps) : ps.length = patterns.length := by
  unfold compile at h
  split at h
  · cases h
  next trees htrees =>
    split at h
    · cases h
    next regexes hregexes =>
      split at h
      · cases h
      · cases h
        rw [List.length_map, length_of_mapM hregexes, length_of_mapM htrees]

end Bytes

namespace Lexer

theorem Compiles.length_eq {rules : List (Rule α)} {ps : List Program} (h : Compiles rules ps) :
    ps.length = rules.length := by
  obtain ⟨rfl, rfl⟩ | hcompile := h
  · rfl
  · rw [Bytes.length_of_compile hcompile, List.length_map]

/-! ## Hits -/

/-- What the scanner of the active state finds in an attempt, after its earlier ones; the length
counts bytes. -/
def byteHit (lx : Lexer α η) (w : Window) : Option Hit :=
  match lx.byteSetup w with
  | (.error _, _, _) => none
  | (.ok u, _, after) =>
    (u.scanner.resume ((after.bytes.trails.lookup after.context.state).getD {}) u.text.bytePos).1

/-- **A hit is for a rule of the active state, and takes bytes of the runes that are left.** They
are what the match is counted in. -/
theorem Fresh.byteHit_for {es : List (Event α υ)} {lx : Lexer α η} (h : lx.Fresh es) {w : Window}
    (hw : lx.window = some w) {hit : Hit} (hhit : lx.byteHit w = some hit) :
    ∃ r w₁ lx₁, (lx.rules.rulesFor lx.context.state)[hit.rule]? = some r ∧ 0 < hit.length ∧
      hit.length ≤ (Bytes.encode w₁.ahead).length ∧
      lx.searchBytes w =
        (.found r (Bytes.runeCount ((Bytes.encode w₁.ahead).take hit.length)), w₁, lx₁) := by
  obtain ⟨s, hs, -⟩ := h.window w hw
  have hsetup := setUp_byteSetup hw
  have hfor := h.byteSetup_for hs hw
  have hahead := fun u => h.byteSetup_ahead (u := u) hs hw
  unfold byteHit at hhit
  rw [searchBytes_eq]
  rcases hu : lx.byteSetup w with ⟨e | u, w₁, lx₁⟩
  all_goals
    rw [hu] at hhit hsetup hfor hahead
    simp only at hhit
  · cases hhit
  rw [resume_longest] at hhit
  cases hfor with
  | ok hc hfor =>
    obtain rfl := hfor.rules
    obtain ⟨hkept, hrules, -⟩ := hsetup.rules u rfl
    -- what is left of the text are the runes that the window keeps
    rw [← hahead u rfl] at hfor
    rw [hfor.hit] at hhit
    obtain ⟨hpos, hle⟩ := longestUpTo_length hhit
    -- the rule of the hit is there as each pattern has its program
    have hrule := longestUpTo_rule hhit
    rw [((h.looks hsetup.looks).compiled _ _ hkept).2.length_eq] at hrule
    obtain ⟨r, hr⟩ : ∃ r, u.rules.rules[hit.rule]? = some r := ⟨_, List.getElem?_eq_getElem hrule⟩
    have hfound :
        u.longest = some (r, Bytes.runeCount ((Bytes.encode w₁.ahead).take hit.length)) := by
      rw [hfor.longest, ByteRules.longest, hhit, Option.bind_some, hr]
      rfl
    refine ⟨r, w₁, (lx₁.attempt u).2, ?_, hpos, hle, ?_⟩
    · rw [← hrules, hr]
    · simp only [hfound]
      rfl

/-- A dispatch breaks down if there are not so many runes, and only then. -/
theorem dispatch_broken_iff (h : Host α η υ ω) (action : Option α) (n : Nat) (w : Window)
    (lx : Lexer α η) (world : ω) :
    (dispatch h action n w lx world).1 = .broken ↔ w.ahead.length < n := by
  rw [← Nat.not_le, ← Window.keeps_iff]
  unfold dispatch
  by_cases hkeeps : w.keeps n = true
  · simp only [hkeeps, Bool.not_true, Bool.false_eq_true, if_false, not_true, iff_false]
    unfold concluded
    split <;> rintro ⟨⟩
  · simp [hkeeps]

end Lexer

/-- **When a match over bytes covers its hit.** In any lexer that calls and attempts lead to: if the
scanner finds the rule `hit.rule` with `hit.length` bytes, then the match is one of that rule, with
as many runes as are whole in the bytes, and one more for each byte behind those. They have all
bytes of the hit. They are there and have no other bytes if and only if the hit ends between two
runes; and the dispatch breaks down if they are not there. -/
theorem byte_match_covers_iff {es : List (Event α υ)} {lx lx' : Lexer α η} (run : Run {} es lx)
    (attempts : lx.Attempts lx') {w : Window} (hw : lx'.window = some w) {hit : Hit}
    (hhit : lx'.byteHit w = some hit) :
    ∃ r whole part w₁ lx₁, lx'.searchBytes w = (.found r (whole + List.length part), w₁, lx₁) ∧
      (lx'.rules.rulesFor lx'.context.state)[hit.rule]? = some r ∧
      Bytes.Cut w₁.ahead hit.length whole part ∧
      hit.length ≤ (Bytes.encode (w₁.ahead.take (whole + part.length))).length ∧
      (Bytes.Covers w₁.ahead (whole + part.length) hit.length ↔
        ∃ k, (Bytes.encode (w₁.ahead.take k)).length = hit.length) ∧
      ∀ (h : Host α η υ ω) (world : ω),
        (dispatch h r.action (whole + part.length) w₁ lx₁ world).1 = .broken ↔
          w₁.ahead.length < whole + part.length := by
  obtain ⟨r, w₁, lx₁, hr, hpos, hle, hsearch⟩ :=
    ((fresh_of_run run).attempts attempts).byteHit_for hw hhit
  obtain ⟨whole, part, hcut⟩ := Bytes.exists_cut hle
  rw [hcut.runeCount] at hsearch
  exact ⟨r, whole, part, w₁, lx₁, hsearch, hr, hcut, hcut.size_le, hcut.covers_iff hpos,
    fun h world => dispatch_broken_iff h r.action _ w₁ lx₁ world⟩

/-- The window before a text. -/
def before (text : Text) : Window := .ofSource (.ofText text)

/-- A lexer for bytes with one rule, before a text. -/
def oneRule (pattern text : Text) : Lexer Nat Unit :=
  (Lexer.configured [.option "dfa" true, .rule pattern (some 1)]).attachSource (.ofText text)

set_option maxRecDepth 10000 in
theorem byte_match_covers_iff_whole :
    (oneRule "é[0-9]+" "é12x").byteHit (before "é12x") = some ⟨0, 4⟩ ∧
      ∃ r w lx, (oneRule "é[0-9]+" "é12x").searchBytes (before "é12x") = (.found r 3, w, lx) ∧
        Bytes.Covers w.ahead 3 4 := by
  have run : Run (υ := Unit) {} [.attached (.ofText "é12x")] (oneRule "é[0-9]+" "é12x") :=
    ((Run.nil {}).settings _).attach (.ofText "é12x")
  have hhit : (oneRule "é[0-9]+" "é12x").byteHit (before "é12x") = some ⟨0, 4⟩ := by decide +kernel
  have hlength : ((oneRule "é[0-9]+" "é12x").searchBytes (before "é12x")).1.length? = some 3 := by
    decide +kernel
  have hahead : ((oneRule "é[0-9]+" "é12x").searchBytes (before "é12x")).2.1.ahead =
      [233, 49, 50, 120] := by
    decide +kernel
  obtain ⟨r, whole, part, w, lx, hsearch, -, -, -, hcovers, -⟩ :=
    byte_match_covers_iff (ω := Unit) (w := before "é12x") run .refl rfl hhit
  rw [hsearch] at hlength hahead
  have hn : whole + part.length = 3 := Option.some.inj hlength
  rw [hn] at hsearch hcovers
  exact ⟨hhit, r, w, lx, hsearch, hcovers.mpr ⟨3, by rw [hahead]; decide⟩⟩

/-- Actions that do nothing. -/
def idleHost : Host Nat Unit Unit Unit :=
  ⟨fun _ _ lx world => ({}, lx, world), fun _ _ lx world => (lx, world)⟩

set_option maxRecDepth 10000 in
/-- Of four bytes of a rune three match `...`, which counts as three runes where there is only one.
Of three bytes of a rune two match `[^a][^a]`, which counts as two runes, the second one being an
`a`. Over runes neither pattern matches. -/
theorem byte_match_overruns :
    ((oneRule "..." "😀").byteHit (before "😀") = some ⟨0, 3⟩ ∧
      ((oneRule "..." "😀").searchBytes (before "😀")).1.length? = some 3 ∧
      ¬ Bytes.Covers ((oneRule "..." "😀").searchBytes (before "😀")).2.1.ahead 3 3 ∧
      ((oneRule "..." "😀").step idleHost ()).1 = .broken ∧
      ((oneRule "..." "😀").searchRunes (before "😀")).1.length? = none) ∧
    (oneRule "[^a][^a]" "€a").byteHit (before "€a") = some ⟨0, 2⟩ ∧
      ((oneRule "[^a][^a]" "€a").searchBytes (before "€a")).1.length? = some 2 ∧
      ¬ Bytes.Covers ((oneRule "[^a][^a]" "€a").searchBytes (before "€a")).2.1.ahead 2 2 ∧
      ((oneRule "[^a][^a]" "€a").step idleHost ()).2.1.context.text = "€a" ∧
      ((oneRule "[^a][^a]" "€a").searchRunes (before "€a")).1.length? = none := by
  refine ⟨⟨by decide +kernel, by decide +kernel, fun hcovers => ?_, by decide +kernel,
    by decide +kernel⟩,
    by decide +kernel, by decide +kernel, fun hcovers => ?_, by decide +kernel, by decide +kernel⟩
  · exact absurd hcovers.length_le (by decide +kernel)
  · exact absurd hcovers.size (by decide +kernel)

end Munch
