import Munch.Proofs.ByteSearch

/-!
# Runes and bytes of the input, side by side

A search over bytes keeps the input as bytes, with a position that is counted in runes and in bytes.
The position is not moved when a match is consumed, and not when the matcher for runes is at work:
the next search over bytes moves it on from where the last one left it.

* `Bytes.utf8 rs`: the runes `rs` in UTF-8, by the encoding of characters that strings have.
* `Bytes.ByteText.At t R p`: the text `t` stands before the bytes of the input `R` from its rune `p`
  on.
* `Bytes.ByteText.Aligned t w`: both positions of `t` are the cursor of the window `w`.
* `Moment es lx`: calls lead to `lx`, within a step or without, and the events `es` happen on the
  way.

Results:
* `Bytes.encode_eq_utf8`: the input is encoded in UTF-8.
* `Bytes.ByteText.Follows.moveTo_at`: a text that lags behind is moved to the position, in runes and
  in bytes.
* `Moment.fresh`: what matchers keep is never out of date, also while an action is running.
* **`byte_positions_aligned`**: at every moment the positions of a text that is kept belong
  together, and a search over bytes leaves them at the cursor, before all of the input that remains.
-/

namespace Munch

open Lexer

variable {α η υ : Type}

/-! ## UTF-8 -/

/-- The encoding of a character is that of strings. -/
theorem encodePoint_eq_utf8EncodeChar (c : Char) :
    encodePoint c.toNat = String.utf8EncodeChar c := by
  have hvalid : c.toNat < 0xD800 ∨ 0xDFFF < c.toNat ∧ c.toNat < 0x110000 := c.valid
  have hval : c.val.toNat = c.toNat := rfl
  have hbyte (b : Nat) {a : Nat} (h : a = b) : a.toUInt8 = UInt8.ofNat b := congrArg UInt8.ofNat h
  unfold encodePoint String.utf8EncodeChar
  simp only [hval]
  by_cases h₁ : c.toNat < 0x80
  · rw [if_pos h₁, if_pos (show c.toNat ≤ 0x7F by omega)]
  rw [if_neg h₁, if_neg (show ¬c.toNat ≤ 0x7F by omega)]
  by_cases h₂ : c.toNat < 0x800
  · rw [if_pos h₂, if_pos (show c.toNat ≤ 0x7FF by omega),
      hbyte (c.toNat / 0x40 % 0x20 + 0xC0) (by omega),
      hbyte (c.toNat % 0x40 + 0x80) (Nat.add_comm _ _)]
  rw [if_neg h₂, if_neg (show ¬c.toNat ≤ 0x7FF by omega)]
  by_cases h₃ : c.toNat < 0x10000
  · rw [if_pos h₃, if_pos (show c.toNat ≤ 0xFFFF by omega),
      hbyte (c.toNat / 0x1000 % 0x10 + 0xE0) (by omega),
      hbyte (c.toNat / 0x40 % 0x40 + 0x80) (Nat.add_comm _ _),
      hbyte (c.toNat % 0x40 + 0x80) (Nat.add_comm _ _)]
  · rw [if_neg h₃, if_neg (show ¬c.toNat ≤ 0xFFFF by omega),
      hbyte (c.toNat / 0x40000 % 8 + 0xF0) (by omega),
      hbyte (c.toNat / 0x1000 % 0x40 + 0x80) (Nat.add_comm _ _),
      hbyte (c.toNat / 0x40 % 0x40 + 0x80) (Nat.add_comm _ _),
      hbyte (c.toNat % 0x40 + 0x80) (Nat.add_comm _ _)]

namespace Bytes

/-- Runes in UTF-8; a rune that is no Unicode scalar value is encoded as U+FFFD. -/
def utf8 (rs : List Rune) : List UInt8 :=
  rs.flatMap fun r => String.utf8EncodeChar (r.char?.getD '\uFFFD')

/-- The input is encoded in UTF-8. -/
theorem encode_eq_utf8 (rs : List Rune) : encode rs = utf8 rs := by
  induction rs with
  | nil => rfl
  | cons r rs ih =>
    show encodePoint (r.char?.getD replacement).toNat ++ encode rs =
      String.utf8EncodeChar (r.char?.getD '\uFFFD') ++ utf8 rs
    rw [ih, encodePoint_eq_utf8EncodeChar]
    rfl

/-! ## Positions in a text -/

/-- The text stands before the bytes of the input `R` from its rune `p` on, and has just these
left. -/
structure ByteText.At (t : ByteText) (R : List Rune) (p : Nat) : Prop where
  runePos : t.runePos = p
  bytePos_le : t.bytePos ≤ t.bytes.size
  left : t.bytes.toList.drop t.bytePos = utf8 (R.drop p)

/-- Both positions of the text are the cursor of the window, and what is left of it are the runes
that are kept. -/
structure ByteText.Aligned (t : ByteText) (w : Window) : Prop where
  runePos : t.runePos = w.offset
  bytePos_le : t.bytePos ≤ t.bytes.size
  left : t.bytes.toList.drop t.bytePos = utf8 w.ahead

namespace ByteText

variable {t : ByteText} {R : List Rune} {p : Nat}

theorem At.aligned (h : t.At R p) {w : Window} (hp : w.offset = p) (hahead : w.ahead = R.drop p) :
    t.Aligned w :=
  ⟨h.runePos.trans hp.symm, h.bytePos_le, by rw [h.left, hahead]⟩

/-- Wherever the text is, its positions belong together. -/
theorem Follows.at (h : t.Follows R p) : t.At R t.runePos := by
  obtain ⟨k, n, hbehind, hrune, -⟩ := h
  refine ⟨rfl, ?_, ?_⟩
  · have hsize := hbehind.size
    omega
  · rw [hbehind.drop, List.drop_drop, ← hrune, encode_eq_utf8]

/-- The text is moved as far as the position, if the input does not end before it. -/
theorem Follows.moveTo_runePos (h : t.Follows R p) (hp : p ≤ R.length) :
    (t.moveTo p).runePos = p := by
  obtain ⟨k, n, hbehind, hrune, hle⟩ := h
  obtain ⟨j, hj, -, hmoved, hend⟩ := hbehind.skip (p - t.runePos)
  unfold ByteText.moveTo
  rw [hmoved]
  by_contra hne
  -- the text has stopped early, so it is at its end, which is not before the position
  have hlength := hend (by omega)
  rw [List.length_drop] at hlength
  omega

/-- **A text that lags behind is moved to the position**, in runes and in bytes. -/
theorem Follows.moveTo_at (h : t.Follows R p) (hp : p ≤ R.length) : (t.moveTo p).At R p := by
  have hat := h.moveTo.at
  rwa [h.moveTo_runePos hp] at hat

end ByteText

end Bytes

/-! ## Moments of a run -/

/-- Calls lead to the lexer, and the events happen on the way. The moments within a step belong to
it: those while a match is looked for, and those after each call that an action or a token handler
has made so far. -/
inductive Moment : List (Event α υ) → Lexer α η → Prop
  | new : Moment [] {}
  /-- after further calls, from wherever they are made -/
  | calls {es fs : List (Event α υ)} {lx lx' : Lexer α η} (h : Moment es lx) (run : Run lx fs lx') :
      Moment (es ++ fs) lx'
  /-- while a match is looked for -/
  | looks {es : List (Event α υ)} {lx lx' : Lexer α η} (h : Moment es lx) (hl : lx.Looks lx') :
      Moment es lx'
  /-- when the action of a match begins to run -/
  | dispatched {es : List (Event α υ)} {lx lx' : Lexer α η} {t : Taker α} {n : Nat} {w : Window}
      (h : Moment es lx) (haim : lx.aim = (.take t n w, lx')) (hkeeps : w.keeps n = true) :
      Moment (es ++ [.dispatched t ({ lx' with phase := .dispatching }.consumed n w).context])
        ({ lx' with phase := .dispatching }.consumed n w)
  /-- when the token handler begins to run -/
  | delivered {es : List (Event α υ)} {lx : Lexer α η} (h : Moment es lx) (t : Token υ) :
      Moment (es ++ [.delivered t]) lx

/-- What matchers keep is never out of date, at no moment of a run. -/
theorem Moment.fresh {es : List (Event α υ)} {lx : Lexer α η} (h : Moment es lx) : lx.Fresh es := by
  induction h with
  | new => exact fresh_new
  | calls _ run ih => exact invariant_fresh.of_run run ih
  | looks _ hl ih => exact ih.looks hl
  | dispatched _ haim hkeeps ih => exact invariant_fresh.dispatched ih haim hkeeps
  | delivered _ t ih => exact invariant_fresh.delivered ih t

/-! ## Searches -/

namespace Lexer

variable {es : List (Event α υ)} {lx : Lexer α η} {s : Source} {w : Window}

/-- Buffering reads the input to its end, and the text that is kept then is at the cursor or
behind. -/
theorem Fresh.bufferBytes_reads (h : lx.Fresh es) (hs : lastSource es = some s)
    (hw : lx.window = some w) :
    (lx.bufferBytes w).2.1.offset = w.offset ∧
      (lx.bufferBytes w).2.1.ahead = s.pending.drop w.offset ∧
      (lx.bufferBytes w).2.1.unread = [] ∧ w.offset ≤ s.pending.length ∧
      (lx.bufferBytes w).1.Follows s.pending w.offset := by
  obtain ⟨hlooks, hwin, htext, -⟩ := bufferBytes_spec hw
  have hf := h.looks hlooks
  obtain ⟨s₁, w₁, hs₁, hw₁, hahead, hfollows⟩ := hf.text _ htext
  cases hs.symm.trans hs₁
  cases hwin.symm.trans hw₁
  obtain ⟨s₂, hs₂, hover⟩ := hf.window _ hwin
  cases hs.symm.trans hs₂
  obtain ⟨w₂, hw₂, hreads⟩ := hlooks.window hw
  cases hwin.symm.trans hw₂
  have hoffset : (lx.bufferBytes w).2.1.offset = w.offset := hreads.fixed.1
  have hrest := hover.rest
  rw [hahead] at hrest
  have hunread := List.append_cancel_left (hrest.trans (List.append_nil _).symm)
  rw [hoffset] at hahead hfollows
  exact ⟨hoffset, hahead, hunread, hoffset ▸ hover.offset_le, hfollows⟩

/-- **Setting up a search moves the text to the cursor**, as soon as there are compiled rules. -/
theorem Fresh.byteSetup_at (h : lx.Fresh es) (hs : lastSource es = some s) (hw : lx.window = some w)
    {c : ByteRules α} (hc : (lx.compileRules lx.context.state).1 = .ok c) (hne : c.rules ≠ []) :
    ∃ text, (lx.byteSetup w).2.2.bytes.text = some text ∧ text.At s.pending w.offset := by
  obtain ⟨hlooks, -⟩ := bufferBytes_spec hw
  obtain ⟨hoffset, -, -, hle, hfollows⟩ := h.bufferBytes_reads hs hw
  rcases hbuffer : lx.bufferBytes w with ⟨text, w₁, lx₁⟩
  rw [hbuffer] at hlooks hoffset hfollows
  simp only at hlooks hoffset hfollows
  have hf₁ := h.looks hlooks
  have hready := ready_byteRules lx₁ lx.context.state
  have hcompiled := (hf₁.byteRules hlooks.kept.rules lx.context.state).trans hc
  have hat : (text.moveTo w₁.offset).At s.pending w.offset := by
    rw [hoffset]
    exact hfollows.moveTo_at hle
  have hgoes := settingUp_byteSetup hbuffer
  generalize lx.byteSetup w = result at hgoes
  cases hgoes with
  | refused hrules =>
    rw [hrules] at hcompiled
    cases hcompiled
  | without hrules hnil =>
    rw [hrules] at hcompiled
    cases hcompiled
    exact absurd hnil hne
  | ended => exact ⟨_, rfl, hat⟩
  | ready hrules _ _ hmoved =>
    rw [hrules] at hready
    have hscan := hready.scanning hmoved
    rw [hmoved] at hscan ⊢
    -- a scanner leaves the text alone
    exact ⟨_, hscan.text, hat⟩

end Lexer

/-- **Positions in runes and in bytes stay aligned.** At any moment of any run (with the option
switched, sources of any runes attached and steps taken, from within actions or without) a text that
is kept stands at one of the runes before the cursor, or at it, in runes as well as in bytes. A
search over bytes then reads all that remains of the input; and unless the rules of the state cannot
be compiled, or there are none, it leaves the text at the cursor, with just the UTF-8 encoding of
the runes kept by the window left. -/
theorem byte_positions_aligned {es : List (Event α υ)} {lx : Lexer α η} (moment : Moment es lx)
    {w : Window} (hw : lx.window = some w) :
    ∃ s, lastSource es = some s ∧
      (∀ text, lx.bytes.text = some text →
        w.ahead = s.pending.drop w.offset ∧ text.runePos ≤ w.offset ∧
          text.At s.pending text.runePos) ∧
      (lx.searchBytes w).2.1.offset = w.offset ∧
      (lx.searchBytes w).2.1.ahead = s.pending.drop w.offset ∧ (lx.searchBytes w).2.1.unread = [] ∧
      ∀ c, (lx.compileRules lx.context.state).1 = .ok c → c.rules ≠ [] →
        ∃ text, (lx.searchBytes w).2.2.bytes.text = some text ∧
          text.Aligned (lx.searchBytes w).2.1 := by
  have hf := moment.fresh
  obtain ⟨s, hs, -⟩ := hf.window w hw
  obtain ⟨hwindow, htext⟩ := searchBytes_setup lx w
  obtain ⟨hoffset, hahead, hunread, -⟩ := hf.bufferBytes_reads hs hw
  rw [hwindow, htext, byteSetup_window]
  refine ⟨s, hs, fun text hkept => ?_, hoffset, hahead, hunread, fun c hc hne => ?_⟩
  · obtain ⟨s', w', hs', hw', hall, hfollows⟩ := hf.text text hkept
    cases hs.symm.trans hs'
    cases hw.symm.trans hw'
    have hle : text.runePos ≤ w.offset := by
      obtain ⟨-, -, -, -, hle⟩ := hfollows
      exact hle
    exact ⟨hall, hle, hfollows.at⟩
  · obtain ⟨text, hkept, hat⟩ := hf.byteSetup_at hs hw hc hne
    exact ⟨text, hkept, hat.aligned hoffset hahead⟩

/-- Actions that switch between the matchers: the action 1 asks for bytes, and any other one for
runes. -/
def switcher : Host Nat Unit Unit Unit where
  act a _ lx world := ({}, (Setting.option "dfa" (a == 1)).apply lx, world)
  deliver _ _ lx world := (lx, world)

/-- A source with a surrogate, a negative rune and a rune behind the last code point. -/
def oddRunes : Source := .direct ⟨[97, 0xD800, -5, 0x110000, 98], .ended⟩ true none

/-- A lexer for bytes before them. -/
def beforeOddRunes : Lexer Nat Unit :=
  (Lexer.configured [.option "dfa" true, .rule "a" (some 0), .defaultRule (some 1)]).attachSource
    oddRunes

/-- The lexer after two matches: the first one over bytes, which switches to runes, and the second
one over runes, which switches back. -/
def lagging : Lexer Nat Unit := ((beforeOddRunes.step switcher ()).2.1.step switcher ()).2.1

/-- The window of the lexer. -/
def laggingWindow : Window := lagging.window.getD (.ofSource oddRunes)

set_option maxRecDepth 10000 in
theorem byte_positions_aligned_lagging :
    (lagging.bytes.text.map fun text => (text.runePos, text.bytePos)) = some (0, 0) ∧
      laggingWindow.offset = 2 ∧
      ∃ text, (lagging.searchBytes laggingWindow).2.2.bytes.text = some text ∧
        text.Aligned (lagging.searchBytes laggingWindow).2.1 ∧
        (text.runePos, text.bytePos, text.bytes.toList.drop text.bytePos) =
          (2, 4, [0xEF, 0xBF, 0xBD, 0xEF, 0xBF, 0xBD, 98]) := by
  have hact (a : Nat) (c : Context) (lx : Lexer Nat Unit) (world : Unit) :
      Run (υ := Unit) lx [] (switcher.act a c lx world).2.1 :=
        (Run.nil lx).register (.option "dfa" (a == 1))
  have hdeliver (handler : Unit) (t : Token Unit) (lx : Lexer Nat Unit) (world : Unit) :
      Run (υ := Unit) lx [] (switcher.deliver handler t lx world).1 := Run.nil lx
  have hbefore : Run (υ := Unit) {} [.attached oddRunes] beforeOddRunes :=
    ((Run.nil {}).settings _).attach oddRunes
  have hsteps :=
    (hbefore.step switcher .silent () hact hdeliver).step switcher .silent () hact hdeliver
  have hwindow : lagging.window = some laggingWindow := by decide +kernel
  have moment : Moment _ lagging := Moment.new.calls hsteps
  obtain ⟨s, -, -, -, -, -, haligned⟩ := byte_positions_aligned moment hwindow
  cases hc : (lagging.compileRules lagging.context.state).1 with
  | error e =>
    have hok : (lagging.compileRules lagging.context.state).1.isOk = true := by decide +kernel
    rw [hc] at hok
    cases hok
  | ok c =>
    have hrules := (ready_compileRules lagging lagging.context.state).rules c hc
    have hne : (lagging.rules.rulesFor lagging.context.state).isEmpty = false := by decide +kernel
    obtain ⟨text, htext, hat⟩ := haligned c hc fun hnil => by
      rw [← hrules, hnil] at hne
      cases hne
    refine ⟨by decide +kernel, by decide +kernel, text, htext, hat, ?_⟩
    have hbytes : ((lagging.searchBytes laggingWindow).2.2.bytes.text.map fun text =>
        (text.runePos, text.bytePos, text.bytes.toList.drop text.bytePos)) =
          some (2, 4, [0xEF, 0xBF, 0xBD, 0xEF, 0xBF, 0xBD, 98]) := by
      decide +kernel
    rw [htext] at hbytes
    exact Option.some.inj hbytes

end Munch
