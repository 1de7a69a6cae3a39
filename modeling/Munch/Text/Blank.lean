import Munch.Text.Basic

/-!
# White space

`isBlank` is the Unicode property White_Space. `trim` cuts it off at both ends, and `words` are the
maximal runs of other symbols.
-/

namespace Munch

/-- The characters with the Unicode property White_Space. -/
def isBlank (c : Char) : Bool :=
  let n := c.toNat
  (9 ≤ n && n ≤ 13) || n = 0x20 || n = 0x85 || n = 0xA0 || n = 0x1680 ||
    (0x2000 ≤ n && n ≤ 0x200A) || n = 0x2028 || n = 0x2029 || n = 0x202F || n = 0x205F || n = 0x3000

/-- A stray byte is never white space. -/
def Symbol.isBlank : Symbol → Bool
  | .char c => Munch.isBlank c
  | .stray _ => false

namespace Text

/-- The text without the white space it starts with. -/
def trimStart (t : Text) : Text := t.dropWhile Symbol.isBlank

/-- The text without the white space it ends with. -/
def trimEnd (t : Text) : Text := (t.reverse.dropWhile Symbol.isBlank).reverse

/-- The text without white space at either end. -/
def trim (t : Text) : Text := trimEnd (trimStart t)

/-- The words of a text, read from the left; `word` is the word begun, in reverse. -/
def wordsFrom (word : Text) : Text → List Text
  | [] => if word.isEmpty then [] else [word.reverse]
  | s :: rest =>
    if s.isBlank then
      if word.isEmpty then wordsFrom [] rest else word.reverse :: wordsFrom [] rest
    else wordsFrom (s :: word) rest

/-- The maximal runs of symbols that are no white space. -/
def words (t : Text) : List Text := wordsFrom [] t

end Text

end Munch
