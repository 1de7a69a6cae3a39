import Munch.Bytes.Tree
import Munch.Contest

/-!
# Matching bytes

The patterns of a state are compiled together. Matching then works on the bytes of the whole input,
and finds the longest match, the first pattern winning a tie.

* `compile` reads all patterns first; one that is unreadable is an error. A pattern with a missing
  part breaks the compiler. A pattern that matches the empty text is an error.
* `ByteText` is the input with a position that is counted in runes and in bytes.
* `ByteScanner` is for one state and one text, and finds matches anywhere in the text.
* `ByteScanner.resume` looks for a match after earlier attempts, of which a scanner keeps a `Trail`.
-/

namespace Munch.Bytes

/-- What compiling the patterns of a state comes to. -/
inductive Compiled where
  | programs (ps : List Program)
  | unreadable
  | matchesEmpty
  | broken
  deriving Repr, Inhabited

/-- Does the expression match the empty text, all conditions being false? -/
def nullable : Regex → Bool
  | .empty => true
  | .step _ => false
  | .anchor _ => false
  | .seq first second => nullable first && nullable second
  | .alt left right => nullable left || nullable right
  | .plus body => nullable body

/-- Compiles the patterns of a state. -/
def compile (patterns : List Text) : Compiled :=
  match patterns.mapM fun p => ByteTree.parse? p.toBytes with
  | none => .unreadable
  | some trees =>
    match trees.mapM ByteTree.regex? with
    | none => .broken
    | some regexes =>
      if regexes.any nullable then .matchesEmpty else .programs (regexes.map Regex.program)

/-! ## The input as bytes -/

/-- The bytes of an input. The byte at `bytePos` is the first one of the rune at `runePos`. -/
structure ByteText where
  bytes : Array UInt8
  runePos : Nat
  bytePos : Nat := 0
  deriving DecidableEq, Repr, Inhabited

/-- The bytes of runes; a rune without a character is encoded as U+FFFD. -/
def encode (rs : List Rune) : List UInt8 := (Text.ofRunes rs).toBytes

/-- The number of bytes of the rune at the front of bytes. -/
def firstSize : List UInt8 → Nat
  | [] => 0
  | a :: rest => (decodeFirst a rest).2

/-- The text `n` runes further, or at its end if it has less. No rune takes more than four bytes. -/
def ByteText.skip : (n : Nat) → ByteText → ByteText
  | 0, t => t
  | n + 1, t =>
    if t.bytePos < t.bytes.size then
      let size := firstSize (t.bytes.extract t.bytePos (t.bytePos + 4)).toList
      skip n { t with runePos := t.runePos + 1, bytePos := t.bytePos + size }
    else t

/-- The text at the rune `position`, which must not lie before the rune it is at. -/
def ByteText.moveTo (t : ByteText) (position : Nat) : ByteText := t.skip (position - t.runePos)

/-- The number of runes in bytes; a byte that starts no encoding counts as one. -/
def runeCount (bytes : List UInt8) : Nat := (Text.ofBytes bytes).length

/-! ## The longest match -/

/-- A pattern's program with its threads. -/
structure Lane where
  program : Program
  threads : List Nat
  deriving Repr, Inhabited

/-- Has the pattern accepted? -/
def Lane.accepts (l : Lane) : Bool := l.program.accepts l.threads

/-- Does the pattern wait for a byte? -/
def Lane.waits (l : Lane) : Bool := l.program.waits l.threads

/-- There are no anchors in patterns over bytes, so all positions are alike to them. -/
def nowhere : Gap := ⟨Rune.absent, Rune.absent⟩

/-- The pattern after the byte `b`. -/
def Lane.advance (b : UInt8) (l : Lane) : Lane :=
  { l with threads := l.program.advance l.threads (b.toNat : Int) nowhere }

/-- Runs the lanes over the bytes from `pos` on, `length` bytes being behind them. -/
def byteRace (text : Array UInt8) :
    (fuel pos length : Nat) → (best : Option Hit) → List Lane → Option Hit
  | 0, _, _, best, _ => best
  | fuel + 1, pos, length, best, lanes =>
    match text[pos]? with
    | none => best
    | some b =>
      if lanes.any Lane.waits then
        let lanes := lanes.map (Lane.advance b)
        byteRace text fuel (pos + 1) (length + 1)
          (better (lanes.findIdx? Lane.accepts) (length + 1) best) lanes
      else best

/-- The programs of a state at work on a text. -/
structure ByteScanner where
  programs : List Program
  text : Array UInt8
  deriving Repr, Inhabited

/-- Runs the programs over the text from the byte `pos` on. -/
def ByteScanner.race (s : ByteScanner) (pos : Nat) (best : Option Hit) : Option Hit :=
  byteRace s.text (s.text.size - pos) pos 0 best (s.programs.map fun p => ⟨p, p.begin nowhere⟩)

/-- The longest match at the byte `pos`; its length counts bytes. -/
def ByteScanner.longest (s : ByteScanner) (pos : Nat) : Option Hit := s.race pos none

/-! ## One attempt after the other -/

/-- What a scanner keeps of its earlier attempts. -/
structure Trail where
  /-- the pattern that was the best one so far, if it was not made a match -/
  winner : Option Nat := none
  /-- how far the text was matched -/
  mark : Option Nat := none
  /-- did an attempt find nothing? -/
  failed : Bool := false
  deriving DecidableEq, Repr, Inhabited

/-- The mark of an attempt that starts at `pos`: one that lies ahead is forgotten, and text that was
left out counts as matched. -/
def Trail.markAt (t : Trail) (pos : Nat) : Option Nat :=
  t.mark.bind fun m => if pos < m then none else some pos

/-- Looks for the longest match at the byte `pos`. A pattern in hand from an earlier attempt counts
as a match of no bytes, which is an error. -/
def ByteScanner.resume (s : ByteScanner) (t : Trail) (pos : Nat) : Option Hit × Trail :=
  if t.failed && pos == s.text.size then (none, t)
  else
    match s.race pos (t.winner.map (⟨·, 0⟩)) with
    | some hit =>
      if hit.length = 0 then (none, { t with mark := t.markAt pos })
      else (some hit, { t with winner := none, mark := some (pos + hit.length) })
    | none =>
      if s.text.size ≤ pos then (none, { t with mark := t.markAt pos })
      else (none, { t with mark := some ((t.markAt pos).getD 0), failed := true })

end Munch.Bytes
