import Munch.Text.Basic
import Munch.Unicode.Printable

/-!
# Texts and runes inside messages

A text inside a message stands between double quotes. Printable characters are written as they are,
a double quote and a backslash behind a backslash; everything else is escaped: `\n` and the like,
`\x1b` for a control character or a stray byte, `\u200b` and `\U0010ffff` for other code points.

A rune is written as `U+003F '?'`, without the quoted part if it is not printable.
-/

namespace Munch

/-- A digit of a number in base 16, in lower case. -/
def hexDigit (n : Nat) : Char := if n < 10 then Char.ofNat (48 + n) else Char.ofNat (87 + n)

/-- The last `width` hexadecimal digits of a number. -/
def hexFixed : (width n : Nat) → List Char
  | 0, _ => []
  | width + 1, n => hexFixed width (n / 16) ++ [hexDigit (n % 16)]

/-- The characters of an escape. -/
def escaped (cs : List Char) : Text := cs.map .char

/-- The letter that stands for a control character behind a backslash. -/
def escapeLetter (c : Char) : Option Char :=
  match c.toNat with
  | 7 => some 'a'
  | 8 => some 'b'
  | 12 => some 'f'
  | 10 => some 'n'
  | 13 => some 'r'
  | 9 => some 't'
  | 11 => some 'v'
  | _ => none

/-- A character between double quotes. -/
def quoteChar (c : Char) : Text :=
  if c = '"' ∨ c = '\\' then escaped ['\\', c]
  else if Unicode.isPrintable c.toNat then [.char c]
  else
    match escapeLetter c with
    | some l => escaped ['\\', l]
    | none =>
      let n := c.toNat
      if n < 0x20 ∨ n = 0x7F then escaped ('\\' :: 'x' :: hexFixed 2 n)
      else if n < 0x10000 then escaped ('\\' :: 'u' :: hexFixed 4 n)
      else escaped ('\\' :: 'U' :: hexFixed 8 n)

/-- A symbol between double quotes. -/
def Symbol.quoted : Symbol → Text
  | .char c => quoteChar c
  | .stray b => escaped ('\\' :: 'x' :: hexFixed 2 b.toNat)

/-- A text between double quotes. -/
def Text.quoted (t : Text) : Text := [.char '"'] ++ t.flatMap Symbol.quoted ++ [.char '"']

/-- The digits of a number in base 16, in upper case, at least four. -/
def hexUpper (n : Nat) : List Char :=
  let ds := (Nat.toDigits 16 n).map Char.toUpper
  List.replicate (4 - ds.length) '0' ++ ds

/-- A rune as a code point. A negative rune is written as a word of 64 bits. -/
def Rune.label (r : Rune) : Text :=
  let point := escaped ('U' :: '+' :: hexUpper (r % (wordCount : Int)).toNat)
  match r.char? with
  | some c =>
    if Unicode.isPrintable c.toNat then point ++ escaped [' ', '\'', c, '\''] else point
  | none => point

end Munch
