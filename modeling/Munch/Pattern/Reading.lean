import Munch.Pattern.Fault
import Munch.Pattern.ClassName

/-!
# Characters, escapes and classes in the text of a pattern

The functions of this module read one thing from the front of a text and return what follows it. A
fault carries the excerpt read so far, so every reader gets the text from its first symbol on.
-/

namespace Munch.Pattern

/-- Reading from the front of a text. -/
abbrev Reading (α : Type) := Except Fault α

/-- The symbols of `before` up to where `after` starts; `after` is an end of `before`. -/
def excerpt (before after : Text) : Text := before.take (before.length - after.length)

/-- Does the text hold a stray byte? -/
def hasStray (t : Text) : Bool := t.any fun | .stray _ => true | .char _ => false

/-- The first code point of a text. A stray byte is a fault; at the end there is U+FFFD. -/
def readPoint (t : Text) : Reading (Nat × Text) :=
  match t with
  | [] => pure (0xFFFD, [])
  | .char c :: rest => pure (c.toNat, rest)
  | .stray _ :: _ => throw ⟨.invalidEncoding, t⟩

/-- Is the code point an ASCII letter or digit? -/
def isAlnum (n : Nat) : Bool :=
  (48 ≤ n && n ≤ 57) || (65 ≤ n && n ≤ 90) || (97 ≤ n && n ≤ 122)

/-- The value of a hexadecimal digit. -/
def hexValue? (n : Nat) : Option Nat :=
  if 48 ≤ n ∧ n ≤ 57 then some (n - 48)
  else if 97 ≤ n ∧ n ≤ 102 then some (n - 87)
  else if 65 ≤ n ∧ n ≤ 70 then some (n - 55)
  else none

/-! ## Escapes -/

/-- Reads at most `count` octal digits behind those that make `value`. -/
def readOctal : (count value : Nat) → Text → Nat × Text
  | 0, value, t => (value, t)
  | count + 1, value, .char c :: rest =>
    if '0' ≤ c ∧ c ≤ '7' then readOctal count (value * 8 + (c.toNat - 48)) rest
    else (value, .char c :: rest)
  | _ + 1, value, t => (value, t)

/-- Reads hexadecimal digits up to the closing brace. `found` says whether there was one before, and
`whole` is the text of the escape. -/
def readBraced (whole : Text) : (found : Bool) → (value : Nat) → Text → Reading (Nat × Text)
  | _, _, [] => throw ⟨.invalidEscape, whole⟩
  | _, _, .stray b :: rest => throw ⟨.invalidEncoding, .stray b :: rest⟩
  | found, value, .char c :: rest =>
    if c.toNat = 125 then
      if found then pure (value, rest) else throw ⟨.invalidEscape, excerpt whole rest⟩
    else
      match hexValue? c.toNat with
      | none => throw ⟨.invalidEscape, excerpt whole rest⟩
      | some v =>
        if maxPoint < value * 16 + v then throw ⟨.invalidEscape, excerpt whole rest⟩
        else readBraced whole true (value * 16 + v) rest

/-- Reads a code point in hexadecimal behind `\x`: two digits, or any number in braces. -/
def readHex (whole t : Text) : Reading (Nat × Text) := do
  if t.isEmpty then throw ⟨.invalidEscape, whole⟩
  let (c, t) ← readPoint t
  if c = 123 then readBraced whole false 0 t
  else
    let (d, t) ← readPoint t
    match hexValue? c, hexValue? d with
    | some x, some y => pure (x * 16 + y, t)
    | _, _ => throw ⟨.invalidEscape, excerpt whole t⟩

/-- The code point of a letter that stands for a control character. -/
def controlPoint? : Char → Option Nat
  | 'a' => some 7
  | 'f' => some 12
  | 'n' => some 10
  | 'r' => some 13
  | 't' => some 9
  | 'v' => some 11
  | _ => none

/-- Is the first symbol an octal digit? -/
def startsOctal : Text → Bool
  | .char c :: _ => '0' ≤ c && c ≤ '7'
  | _ => false

/-- Reads the escape at the front of a text, which starts with a backslash. -/
def readEscape (whole : Text) : Reading (Nat × Text) := do
  let t := whole.drop 1
  if t.isEmpty then throw ⟨.trailingBackslash, []⟩
  let (n, rest) ← readPoint t
  if n = 48 then pure (readOctal 2 0 rest)
  else if 49 ≤ n ∧ n ≤ 55 ∧ startsOctal rest then pure (readOctal 2 (n - 48) rest)
  else if n = 120 then readHex whole rest
  else
    match controlPoint? (Char.ofNat n) with
    | some p => pure (p, rest)
    | none =>
      if n < 0x80 ∧ !isAlnum n then pure (n, rest) else throw ⟨.invalidEscape, excerpt whole rest⟩

/-! ## Named classes -/

/-- Splits a text at the first occurrence of the character `c`. -/
def cutAt (c : Char) (t : Text) : Option (Text × Text) :=
  match t.span (!·.is c) with
  | (front, _ :: rest) => some (front, rest)
  | (_, []) => none

/-- The class of a backslash and a letter at the front of a text. -/
def readLetterClass (fold : Bool) : Text → Option (CharSet × Text)
  | .char '\\' :: .char c :: rest =>
    (letterClass? c).map fun (negated, s) => (signedSet negated (foldedSet fold s), rest)
  | _ => none

/-- Splits a name at a leading `^`. -/
def cutCaret : Text → Bool × Text
  | .char '^' :: rest => (true, rest)
  | t => (false, t)

/-- The class of a Unicode name, negated or not. -/
def namedUnicode (fold negated : Bool) (name whole : Text) : Reading CharSet :=
  let (caret, name) := cutCaret name
  match unicodeClass? name.shown with
  | some s => pure (signedSet (negated != caret) (foldedSet fold s))
  | none => throw ⟨.invalidRange, whole⟩

/-- The class of `\p` or `\P` and a name, at the front of a text; `none` if there is no such
escape. -/
def readUnicodeClass (fold : Bool) (whole : Text) : Reading (Option (CharSet × Text)) := do
  match whole with
  | .char '\\' :: .char p :: t =>
    if p = 'p' ∨ p = 'P' then
      let (c, rest) ← readPoint t
      if c = 123 then
        match cutAt '\x7d' t with
        | none =>
          if hasStray whole then throw ⟨.invalidEncoding, whole.dropWhile (fun s => !hasStray [s])⟩
          throw ⟨.invalidRange, whole⟩
        | some (front, rest) =>
          let name := front.drop 1
          if hasStray name then throw ⟨.invalidEncoding, name.dropWhile (fun s => !hasStray [s])⟩
          let s ← namedUnicode fold (p = 'P') name (excerpt whole rest)
          pure (some (s, rest))
      else
        let s ← namedUnicode fold (p = 'P') (excerpt t rest) (excerpt whole rest)
        pure (some (s, rest))
    else pure none
  | _ => pure none

/-- Splits a text at the first `:]`. -/
def cutColon : Text → Option (Text × Text)
  | .char ':' :: .char ']' :: rest => some ([], rest)
  | s :: rest => (cutColon rest).map fun (front, tail) => (s :: front, tail)
  | [] => none

/-- The class of a name like `[:alpha:]` at the front of a text; `none` if there is none. -/
def readAsciiClass (fold : Bool) (whole : Text) : Reading (Option (CharSet × Text)) :=
  match whole with
  | .char '[' :: .char ':' :: t =>
    match cutColon t with
    | none => pure none
    | some (name, rest) =>
      let (caret, word) := cutCaret name
      match (if hasStray word then none else asciiClass? word.shown) with
      | some s => pure (some (signedSet caret (foldedSet fold s), rest))
      | none => throw ⟨.invalidRange, excerpt whole rest⟩
  | _ => pure none

/-! ## Classes in brackets -/

/-- Reads one code point of a class in brackets; `whole` is the text of the class. -/
def readMember (whole t : Text) : Reading (Nat × Text) :=
  match t with
  | [] => throw ⟨.missingBracket, whole⟩
  | .char '\\' :: _ => readEscape t
  | _ => readPoint t

/-- Reads a code point, or a range of them. -/
def readRange (whole t : Text) : Reading (Nat × Nat × Text) := do
  let (lo, rest) ← readMember whole t
  match rest with
  | .char '-' :: next :: tail =>
    if next.is ']' then pure (lo, lo, rest)
    else
      let (hi, rest) ← readMember whole (next :: tail)
      if hi < lo then throw ⟨.invalidRange, excerpt t rest⟩
      pure (lo, hi, rest)
  | _ => pure (lo, lo, rest)

/-- Reads one item of a class in brackets. -/
def readItem (fold : Bool) (whole t : Text) : Reading (CharSet × Text) := do
  match ← readAsciiClass fold t with
  | some found => pure found
  | none =>
    match ← readUnicodeClass fold t with
    | some found => pure found
    | none =>
      match readLetterClass fold t with
      | some found => pure found
      | none =>
        let (lo, hi, rest) ← readRange whole t
        pure (foldedSet fold (.range lo hi), rest)

/-- Reads items up to the closing bracket, at least one if `first`. Each takes a symbol at least, so
`fuel` is the length of the text. -/
def readItems (fold : Bool) (whole : Text) :
    (fuel : Nat) → (first : Bool) → CharSet → Text → Reading (CharSet × Text)
  | 0, _, _, _ => throw ⟨.missingBracket, whole⟩
  | fuel + 1, first, s, t =>
    match t, first with
    | .char ']' :: rest, false => pure (s, rest)
    | t, _ => do
      let (item, rest) ← readItem fold whole t
      readItems fold whole fuel false (item.union s) rest

/-- Reads a class in brackets at the front of a text. -/
def readClass (fold : Bool) (whole : Text) : Reading (CharSet × Text) := do
  let (negated, t) := cutCaret (whole.drop 1)
  let (s, rest) ← readItems fold whole (t.length + 1) true .empty t
  pure (signedSet negated s, rest)

end Munch.Pattern
