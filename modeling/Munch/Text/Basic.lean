/-!
# Text, and the runes a scan consumes

A text is a list of symbols. A symbol is a character or a *stray* byte: a byte that starts no valid
UTF-8 encoding at its place. Bytes become text once, at the boundary (`Text.ofBytes`), and every
name, pattern and message is a `Text` from there on.

A rune is what a source delivers: any integer. The runes that are Unicode scalar values have a
character; every other one is shown as U+FFFD.

* `Text.ofBytes` decodes UTF-8: a surrogate, an overlong form or a value above U+10FFFF is no
  encoding, and a byte that starts none is one stray symbol.
* `Text.toBytes` is its inverse on decoded text.
-/

namespace Munch

/-- One unit of text: a character, or a byte that belongs to no valid encoding. -/
inductive Symbol where
  | char (c : Char)
  | stray (b : UInt8)
  deriving DecidableEq, Repr, Inhabited

/-- A text: characters and stray bytes in order. -/
abbrev Text := List Symbol

/-- An element of the input: any integer, a Unicode scalar value or not. -/
abbrev Rune := Int

/-- U+FFFD, which stands for everything that has no character of its own. -/
def replacement : Char := '\uFFFD'

/-- The rune that marks the absence of one: before the start and behind the end of the input. -/
def Rune.absent : Rune := -1

/-- The newline as a rune. -/
def Rune.newline : Rune := 10

/-- The number of words of 64 bits, in which positions and code points are counted. -/
def wordCount : Nat := 0x10000000000000000

/-! ## Runes and symbols -/

/-- The character of a rune that is a Unicode scalar value. -/
def Rune.char? (r : Rune) : Option Char :=
  let n := r.toNat
  if r < 0 then none
  else if n < 0xD800 ∨ (0xE000 ≤ n ∧ n ≤ 0x10FFFF) then some (Char.ofNat n)
  else none

/-- A rune as it is shown in a text. -/
def Rune.symbol (r : Rune) : Symbol := .char (r.char?.getD replacement)

/-- The character shown for a symbol. -/
def Symbol.shown : Symbol → Char
  | .char c => c
  | .stray _ => replacement

/-- The rune a symbol is read as. -/
def Symbol.rune (s : Symbol) : Rune := (s.shown.toNat : Int)

/-- Is the symbol the character `c`? -/
def Symbol.is (s : Symbol) (c : Char) : Bool :=
  match s with
  | .char d => d == c
  | .stray _ => false

/-- The number of bytes a character takes in UTF-8. -/
def charSize (c : Char) : Nat :=
  let n := c.toNat
  if n < 0x80 then 1 else if n < 0x800 then 2 else if n < 0x10000 then 3 else 4

/-- The number of bytes of a symbol. -/
def Symbol.size : Symbol → Nat
  | .char c => charSize c
  | .stray _ => 1

/-! ## UTF-8 -/

/-- The UTF-8 encoding of a code point. -/
def encodePoint (n : Nat) : List UInt8 :=
  if n < 0x80 then [n.toUInt8]
  else if n < 0x800 then [(0xC0 + n / 0x40).toUInt8, (0x80 + n % 0x40).toUInt8]
  else if n < 0x10000 then
    [(0xE0 + n / 0x1000).toUInt8, (0x80 + n / 0x40 % 0x40).toUInt8, (0x80 + n % 0x40).toUInt8]
  else
    [(0xF0 + n / 0x40000).toUInt8, (0x80 + n / 0x1000 % 0x40).toUInt8,
      (0x80 + n / 0x40 % 0x40).toUInt8, (0x80 + n % 0x40).toUInt8]

/-- Is `b` a byte between `lo` and `hi`? -/
def within (lo hi : Nat) (b : UInt8) : Bool := lo ≤ b.toNat && b.toNat ≤ hi

/-- The six bits that a continuation byte carries. -/
def payload (b : UInt8) : Nat := b.toNat % 0x40

/-- The bounds of the second byte behind the lead byte `a`, and the number of bytes of the whole
encoding; `none` if no encoding of more than one byte starts with `a`. -/
def leadBounds (a : UInt8) : Option (Nat × Nat × Nat) :=
  let n := a.toNat
  if n < 0xC2 then none
  else if n < 0xE0 then some (0x80, 0xBF, 2)
  else if n = 0xE0 then some (0xA0, 0xBF, 3)
  else if n = 0xED then some (0x80, 0x9F, 3)
  else if n < 0xF0 then some (0x80, 0xBF, 3)
  else if n = 0xF0 then some (0x90, 0xBF, 4)
  else if n < 0xF4 then some (0x80, 0xBF, 4)
  else if n = 0xF4 then some (0x80, 0x8F, 4)
  else none

/-- The first symbol of a nonempty byte sequence, and the number of bytes it takes. -/
def decodeFirst (a : UInt8) (rest : List UInt8) : Symbol × Nat :=
  if a.toNat < 0x80 then (.char (Char.ofNat a.toNat), 1)
  else
    match leadBounds a, rest with
    | some (lo, hi, 2), b :: _ =>
      if within lo hi b then (.char (Char.ofNat (a.toNat % 0x20 * 0x40 + payload b)), 2)
      else (.stray a, 1)
    | some (lo, hi, 3), b :: c :: _ =>
      if within lo hi b && within 0x80 0xBF c then
        (.char (Char.ofNat (a.toNat % 0x10 * 0x1000 + payload b * 0x40 + payload c)), 3)
      else (.stray a, 1)
    | some (lo, hi, 4), b :: c :: d :: _ =>
      if within lo hi b && within 0x80 0xBF c && within 0x80 0xBF d then
        (.char (Char.ofNat
          (a.toNat % 8 * 0x40000 + payload b * 0x1000 + payload c * 0x40 + payload d)), 4)
      else (.stray a, 1)
    | _, _ => (.stray a, 1)

/-- Decodes at most `fuel` symbols. -/
def decode : Nat → List UInt8 → Text
  | 0, _ => []
  | _ + 1, [] => []
  | fuel + 1, a :: rest =>
    let (s, n) := decodeFirst a rest
    s :: decode fuel (rest.drop (n - 1))

namespace Text

/-- The text of a byte sequence. -/
def ofBytes (bytes : List UInt8) : Text := decode bytes.length bytes

/-- The text of a string, which has no stray bytes. -/
def ofString (s : String) : Text := s.toList.map .char

instance : Coe String Text := ⟨ofString⟩

/-- The text of a list of runes; a rune without a character is shown as U+FFFD. -/
def ofRunes (rs : List Rune) : Text := rs.map Rune.symbol

/-- The runes of a text; a stray byte is read as U+FFFD. -/
def runes (t : Text) : List Rune := t.map Symbol.rune

/-- The text with every stray byte replaced by U+FFFD. -/
def repaired (t : Text) : Text := t.map fun s => .char s.shown

/-- The bytes of a text. -/
def toBytes (t : Text) : List UInt8 :=
  t.flatMap fun
    | .char c => encodePoint c.toNat
    | .stray b => [b]

/-- The text as a string, a stray byte shown as U+FFFD. -/
def shown (t : Text) : String := String.ofList (t.map Symbol.shown)

/-- The number of bytes of a text. -/
def size (t : Text) : Nat := t.foldl (fun n s => n + s.size) 0

/-- A natural number in decimal. -/
def ofNat (n : Nat) : Text := ofString (toString n)

/-- An integer in decimal. -/
def ofInt (n : Int) : Text := ofString (toString n)

/-- The number of newlines in a text. -/
def newlines (t : Text) : Nat := t.countP (·.is '\n')

/-- Does the text hold the character `c`? -/
def holds (t : Text) (c : Char) : Bool := t.any (·.is c)

/-- What follows `front` in `t`, if `t` starts with it. -/
def after? : (front t : Text) → Option Text
  | [], t => some t
  | _ :: _, [] => none
  | a :: front, b :: t => if a = b then after? front t else none

/-- Does `t` start with `front`? -/
def startsWith (t front : Text) : Bool := (after? front t).isSome

/-- Splits a text at every character `c`; there is always a last piece, empty or not. -/
def pieces (c : Char) : Text → List Text
  | [] => [[]]
  | s :: rest =>
    match pieces c rest with
    | [] => [[s]]
    | piece :: pieces => if s.is c then [] :: piece :: pieces else (s :: piece) :: pieces

/-- Replaces occurrences of `old` from left to right without overlap, in at most `fuel` steps. -/
def replaceFrom (old new : Text) : Nat → Text → Text
  | 0, t => t
  | _ + 1, [] => []
  | fuel + 1, s :: rest =>
    match after? old (s :: rest) with
    | some tail => new ++ replaceFrom old new fuel tail
    | none => s :: replaceFrom old new fuel rest

/-- Replaces every occurrence of the nonempty text `old` by `new`, from left to right and without
overlap. -/
def replaceAll (old new t : Text) : Text := replaceFrom old new t.length t

/-- Texts with `sep` between each two. -/
def join (sep : Text) : List Text → Text
  | [] => []
  | [t] => t
  | t :: ts => t ++ sep ++ join sep ts

end Text

end Munch
