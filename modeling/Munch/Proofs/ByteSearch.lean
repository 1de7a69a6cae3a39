import Munch.Proofs.Freshness

/-!
# Looking for a match in bytes

A search over bytes reads the whole input, compiles the rules of the active state or takes what was
compiled before, and lets a scanner look at the text from the cursor on. What it comes to depends on
none of what was kept: it is the longest match of the rules of now at the front of the rest of the
input.

* `ByteRules.longest`: the longest match of compiled rules at the front of bytes, said without a
  scanner.
* `Lexer.ByteSetup.For u c bytes`: at work are the rules `c`, on a text that stands before `bytes`.

Results:
* `Lexer.byteRules_eq_compileRules`: what was compiled before is what compiling gives.
* `Lexer.Fresh.byteSetup_for`: a search is set up for the rules of the state and the rest of the
  input.
* **`Lexer.Fresh.searchBytes`**: a search comes to what the rules of the state and the rest of the
  input say.
-/

namespace Munch

open Lexer

variable {α η υ : Type}

/-! ## The longest match -/

/-- The longest match of compiled rules at the front of bytes: the rule, and the number of runes in
its bytes. -/
def ByteRules.longest (c : ByteRules α) (bytes : List UInt8) : Option (Rule α × Nat) :=
  (longestUpTo c.programs (fun _ => Bytes.nowhere) (Bytes.runesOf bytes) bytes.length).bind fun h =>
    c.rules[h.rule]?.map (·, Bytes.runeCount (bytes.take h.length))

theorem ByteRules.longest_nil (c : ByteRules α) : c.longest [] = none := rfl

/-- Without rules nothing is found. -/
theorem ByteRules.longest_of_rules_nil {c : ByteRules α} (h : c.rules = []) (bytes : List UInt8) :
    c.longest bytes = none := by
  refine Option.bind_eq_none_iff.mpr fun hit _ => ?_
  rw [h]
  rfl

/-- In ASCII the length of a match is that of its bytes. -/
theorem ByteRules.longest_ascii (c : ByteRules α) {rs : List Rune} (h : InAscii rs) :
    c.longest (Bytes.encode rs) =
      (longestUpTo c.programs (fun _ => Bytes.nowhere) rs rs.length).bind
        fun hit => c.rules[hit.rule]?.map (·, hit.length) := by
  unfold ByteRules.longest
  have hlength : (Bytes.encode rs).length = rs.length := by
    rw [Bytes.encode_ascii h, List.length_map]
  rw [Bytes.runesOf_encode h, hlength]
  refine Option.bind_congr fun hit hhit => ?_
  obtain ⟨-, hle⟩ := longestUpTo_length hhit
  have htake : (Bytes.encode rs).take hit.length = Bytes.encode (rs.take hit.length) := by
    rw [Bytes.encode_ascii h, Bytes.encode_ascii (h.sublist (List.take_sublist _ _)), List.map_take]
  rw [htake, Bytes.runeCount_encode, List.length_take, Nat.min_eq_left hle]

namespace Lexer

/-! ## What is at work -/

/-- Rules that can be compiled are. -/
theorem compileRules_of_compiles {lx : Lexer α η} {state : Text} {ps : List Program}
    (h : Compiles (lx.rules.rulesFor state) ps) :
    (lx.compileRules state).1 =
      .ok ⟨(lx.rules.rulesFor state).map (·.bytePattern), lx.rules.rulesFor state, ps⟩ := by
  unfold compileRules
  simp only [keepRules]
  obtain ⟨hnil, rfl⟩ | hps := h
  · rw [hnil]
    rfl
  · split
    next hnil =>
      -- no patterns are compiled to no programs
      rw [List.isEmpty_iff.mp hnil] at hps
      obtain rfl : [] = ps := Bytes.Compiled.programs.inj hps
      rfl
    next hne => rw [hps]

/-- What compiling comes to depends on the rules only. -/
theorem compileRules_congr {lx lx' : Lexer α η} (h : lx.rules = lx'.rules) (state : Text) :
    (lx.compileRules state).1 = (lx'.compileRules state).1 := by
  unfold compileRules
  simp only [h]
  split
  · rfl
  · cases Bytes.compile _ <;> rfl

/-- Compiled rules that are used again are those that compiling would give. -/
theorem byteRules_eq_compileRules {lx : Lexer α η} {state : Text}
    (hsound : ∀ c, lx.bytes.compiled.lookup state = some c → c.Sound) :
    (lx.byteRules state).1 = (lx.compileRules state).1 := by
  unfold byteRules
  simp only
  split
  next c hc =>
    split
    next hf =>
      obtain ⟨-, hcompiles⟩ := (hsound c hc).update hf
      rw [compileRules_of_compiles hcompiles, ← hf]
      rfl
    · rfl
  · rfl

/-- A fresh lexer comes by the rules that compiling gives to any lexer with the same rules. -/
theorem Fresh.byteRules {es : List (Event α υ)} {lx lx' : Lexer α η} (h : lx'.Fresh es)
    (hrules : lx'.rules = lx.rules) (state : Text) :
    (lx'.byteRules state).1 = (lx.compileRules state).1 := by
  rw [byteRules_eq_compileRules fun c hc => h.compiled state c hc]
  exact compileRules_congr hrules state

/-- A scanner that is used again is the one that would be made. -/
theorem Fresh.byteScanner {es : List (Event α υ)} {lx : Lexer α η} (hf : lx.Fresh es) {state : Text}
    {c : ByteRules α} {text : Bytes.ByteText} (hc : lx.bytes.compiled.lookup state = some c)
    (htext : lx.bytes.text = some text) :
    (lx.byteScanner state c text).1 = ⟨c.programs, text.bytes⟩ := by
  unfold Lexer.byteScanner
  split
  next scanner hs =>
    obtain ⟨c', text', hc', htext', rfl⟩ := hf.scanners _ _ hs
    cases hc.symm.trans hc'
    cases htext.symm.trans htext'
    rfl
  · rfl

/-- What is at work in an attempt: the compiled rules `c` and a scanner for them, on a text that
stands before the bytes `bytes`. -/
structure ByteSetup.For (u : ByteSetup α) (c : ByteRules α) (bytes : List UInt8) : Prop where
  rules : u.rules = c
  scanner : u.scanner = ⟨c.programs, u.text.bytes⟩
  left : u.text.bytes.toList.drop u.text.bytePos = bytes
  size : u.text.bytes.size = u.text.bytePos + bytes.length

/-- A scanner finds the longest match at the front of the bytes that are left. -/
theorem ByteSetup.For.hit {u : ByteSetup α} {c : ByteRules α} {bytes : List UInt8}
    (h : u.For c bytes) :
    u.scanner.longest u.text.bytePos =
      longestUpTo c.programs (fun _ => Bytes.nowhere) (Bytes.runesOf bytes) bytes.length := by
  have hsize := h.size
  rw [h.scanner,
    Bytes.ByteScanner.longest_spec _ (show u.text.bytePos ≤ u.text.bytes.size by omega)]
  simp only [h.left]
  rw [Bytes.runesOf, List.length_map]

/-- The bytes of a hit are the first ones of those that are left. -/
theorem ByteSetup.For.read {u : ByteSetup α} {c : ByteRules α} {bytes : List UInt8}
    (h : u.For c bytes) (hit : Hit) :
    u.read (some hit) = c.rules[hit.rule]?.map (·, Bytes.runeCount (bytes.take hit.length)) := by
  unfold ByteSetup.read
  simp only [Option.bind_some, h.rules]
  rw [Array.toList_extract, List.extract_eq_take_drop, h.left, Nat.add_sub_cancel_left]

theorem ByteSetup.For.longest {u : ByteSetup α} {c : ByteRules α} {bytes : List UInt8}
    (h : u.For c bytes) : u.longest = c.longest bytes := by
  unfold ByteSetup.longest ByteRules.longest
  rw [h.hit]
  cases longestUpTo c.programs _ _ _ with
  | none => rfl
  | some hit => exact h.read hit

/-- What setting up an attempt comes to, given what compiling comes to and the bytes that are left:
the rules are refused, there is nothing to find, or they are what is at work. -/
inductive SetFor (compiled : Except (Search α) (ByteRules α)) (bytes : List UInt8) :
    Except (Search α) (ByteSetup α) → Prop
  | refused {s : Search α} (hs : compiled = .error s) : SetFor compiled bytes (.error s)
  | nothing {c : ByteRules α} (hc : compiled = .ok c) (h : c.rules = [] ∨ bytes = []) :
      SetFor compiled bytes (.error .nothing)
  | ok {c : ByteRules α} {u : ByteSetup α} (hc : compiled = .ok c) (h : u.For c bytes) :
      SetFor compiled bytes (.ok u)

section

variable {es : List (Event α υ)} {lx : Lexer α η} {s : Source} {w : Window}

/-- **A search is set up with what compiling gives now**, and with the bytes of the rest of the
input, unless the rules cannot be compiled or there is nothing to find. -/
theorem Fresh.byteSetup_for (h : lx.Fresh es) (hs : lastSource es = some s)
    (hw : lx.window = some w) :
    SetFor (lx.compileRules lx.context.state).1 (Bytes.encode (s.pending.drop w.offset))
      (lx.byteSetup w).1 := by
  obtain ⟨hlooks, hwin, htext, -⟩ := bufferBytes_spec hw
  rcases hbuffer : lx.bufferBytes w with ⟨text, w₁, lx₁⟩
  rw [hbuffer] at hlooks hwin htext
  simp only at hlooks hwin htext
  have hf₁ := h.looks hlooks
  have hready := ready_byteRules lx₁ lx.context.state
  -- what was compiled before is what compiling gives
  have hcompiled := hf₁.byteRules hlooks.kept.rules lx.context.state
  -- the text is moved to the cursor, where the rest of the input begins
  obtain ⟨s₁, w₁', hs₁, hw₁, -, hfollows⟩ := hf₁.text text htext
  cases hs.symm.trans hs₁
  cases hwin.symm.trans hw₁
  obtain ⟨s₂, hs₂, hover⟩ := hf₁.window w₁ hwin
  cases hs.symm.trans hs₂
  obtain ⟨w₂, hw₂, hreads⟩ := hlooks.window hw
  cases hwin.symm.trans hw₂
  obtain ⟨hleft, hsize⟩ := hfollows.drop_moveTo hover.offset_le
  have hrest : s.pending.drop w₁.offset = s.pending.drop w.offset := by rw [hreads.fixed.1]
  rw [hrest] at hleft hsize
  have hgoes := settingUp_byteSetup hbuffer
  generalize lx.byteSetup w = result at hgoes ⊢
  cases hgoes with
  | refused hrules =>
    rw [hrules] at hcompiled
    exact .refused hcompiled.symm
  | without hrules hnil =>
    rw [hrules] at hcompiled
    exact .nothing hcompiled.symm (.inl hnil)
  | ended hrules _ hend =>
    rw [hrules] at hcompiled
    exact .nothing hcompiled.symm (.inr (List.eq_nil_of_length_eq_zero (by omega)))
  | ready hrules _ _ hmoved =>
    rw [hrules] at hready hcompiled
    have hf₂ : Fresh es _ :=
      (hf₁.looks hready.looks).move (hready.text.trans htext) (hready.window.trans hwin)
    rw [← hmoved] at hf₂
    refine .ok hcompiled.symm ⟨rfl, hf₂.byteScanner ?_ ?_, hleft, hsize⟩
    · rw [hmoved]
      exact hready.kept _ rfl
    · rw [hmoved]

/-- A search that is set up has read the input completely. -/
theorem Fresh.byteSetup_ahead (h : lx.Fresh es) (hs : lastSource es = some s)
    (hw : lx.window = some w) {u : ByteSetup α} (hu : (lx.byteSetup w).1 = .ok u) :
    (lx.byteSetup w).2.1.ahead = s.pending.drop w.offset := by
  have hsetup := setUp_byteSetup hw
  obtain ⟨s₁, w₁, hs₁, hw₁, hahead, -⟩ := (h.looks hsetup.looks).text _ (hsetup.text u hu).1
  obtain ⟨w₂, hw₂, hreads⟩ := hsetup.looks.window hw
  cases hs.symm.trans hs₁
  cases hw₁.symm.trans hsetup.window
  cases hw₁.symm.trans hw₂
  rw [hahead, hreads.fixed.1]

/-- **A search comes to what the rules of the state and the rest of the input say**, and not to
anything kept from the searches before it. -/
theorem Fresh.searchBytes (h : lx.Fresh es) (hs : lastSource es = some s)
    (hw : lx.window = some w) :
    (lx.searchBytes w).1 = match (lx.compileRules lx.context.state).1 with
      | .error e => e
      | .ok c => .ofHit (c.longest (Bytes.encode (s.pending.drop w.offset))) := by
  have hsetup := h.byteSetup_for hs hw
  rw [searchBytes_eq]
  rcases hu : lx.byteSetup w with ⟨result, w₁, lx₁⟩
  rw [hu] at hsetup
  cases hsetup with
  | refused he => rw [he]
  | nothing hc hnone =>
    rw [hc]
    obtain hnil | hnil := hnone
    · simp only [ByteRules.longest_of_rules_nil hnil]
      rfl
    · simp only [hnil, ByteRules.longest_nil]
      rfl
  | ok hc hfor =>
    rw [hc]
    simp only [hfor.longest]

/-- A search that finds a match has read the input completely. -/
theorem Fresh.searchBytes_ahead (h : lx.Fresh es) (hs : lastSource es = some s)
    (hw : lx.window = some w) {r : Rule α} {n : Nat} (hfound : (lx.searchBytes w).1 = .found r n) :
    (lx.searchBytes w).2.1.ahead = s.pending.drop w.offset := by
  have hsetup := setUp_byteSetup hw
  have hahead := fun u => h.byteSetup_ahead (u := u) hs hw
  rw [searchBytes_eq] at hfound ⊢
  rcases hu : lx.byteSetup w with ⟨e | u, w₁, lx₁⟩
  all_goals rw [hu] at hsetup hahead hfound
  · exact absurd hfound (hsetup.failed e rfl r n)
  · exact hahead u rfl

end

end Lexer

end Munch
