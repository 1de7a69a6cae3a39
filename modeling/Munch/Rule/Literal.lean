import Munch.Pattern.Reading

/-!
# Quoted literals in rules

A rule may hold literals between double quotes. They are replaced by groups in which every character
with a meaning is escaped. A quote in brackets or behind a backslash starts no literal.

* `groupLiterals` makes groups of all literals of a pattern; it fails if the last one is not closed.
* `cutClass` finds the end of a class in brackets.
-/

namespace Munch.Rule

open Pattern (cutColon)

/-- The characters with a meaning in patterns. -/
def isMeta (c : Char) : Bool := "\\.+*?()|[]\x7b\x7d^$".toList.contains c

/-- The text with every character that has a meaning behind a backslash. -/
def escapeMeta (t : Text) : Text :=
  t.flatMap fun s => if isMeta s.shown then [.char '\\', s] else [s]

/-- The symbol that a backslash and a symbol stand for in a literal. -/
def unescape (s : Symbol) : Symbol :=
  match s with
  | .char 'n' => .char '\n'
  | .char 't' => .char '\t'
  | .char 'r' => .char '\r'
  | s => s

/-- Reads a literal behind its opening quote: the text it stands for, and what follows the closing
quote. -/
def readLiteral : Text → Option (Text × Text)
  | [] => none
  | .char '"' :: rest => some ([], rest)
  | .char '\\' :: s :: rest => (readLiteral rest).map fun (t, tail) => (unescape s :: t, tail)
  | s :: rest => (readLiteral rest).map fun (t, tail) => (s :: t, tail)

/-- Splits a text behind the end of the class that it starts inside of; without an end the class
takes everything. Each step takes a symbol at least. -/
def cutBody : (fuel : Nat) → Text → Text × Text
  | 0, t => (t, [])
  | _ + 1, [] => ([], [])
  | _ + 1, .char ']' :: rest => ([.char ']'], rest)
  | fuel + 1, .char '\\' :: s :: rest =>
    let (body, tail) := cutBody fuel rest
    (.char '\\' :: s :: body, tail)
  | fuel + 1, .char '[' :: .char ':' :: rest =>
    match cutColon rest with
    | some (name, rest) =>
      let (body, tail) := cutBody fuel rest
      ([.char '[', .char ':'] ++ name ++ [.char ':', .char ']'] ++ body, tail)
    | none =>
      let (body, tail) := cutBody fuel (.char ':' :: rest)
      (.char '[' :: body, tail)
  | fuel + 1, s :: rest =>
    let (body, tail) := cutBody fuel rest
    (s :: body, tail)

/-- Splits the symbol off that may stand first in a class and mean itself. -/
def cutFirst : Text → Text × Text
  | .char '^' :: .char ']' :: rest => ([.char '^', .char ']'], rest)
  | .char '^' :: rest => ([.char '^'], rest)
  | .char ']' :: rest => ([.char ']'], rest)
  | t => ([], t)

/-- Splits a text behind the class in brackets that it starts with. -/
def cutClass (t : Text) : Text × Text :=
  let (first, rest) := cutFirst (t.drop 1)
  let (body, tail) := cutBody rest.length rest
  (t.take 1 ++ first ++ body, tail)

/-- Makes groups of literals; `opening` opens a group. Each step takes a symbol at least. -/
def groupLiteralsFrom (opening : Text) : (fuel : Nat) → Text → Option Text
  | 0, _ => some []
  | _ + 1, [] => some []
  | fuel + 1, .char '\\' :: s :: rest =>
    (groupLiteralsFrom opening fuel rest).map ([.char '\\', s] ++ ·)
  | fuel + 1, .char '[' :: rest =>
    let (cls, tail) := cutClass (.char '[' :: rest)
    (groupLiteralsFrom opening fuel tail).map (cls ++ ·)
  | fuel + 1, .char '"' :: rest => do
    let (literal, tail) ← readLiteral rest
    let more ← groupLiteralsFrom opening fuel tail
    some (opening ++ escapeMeta literal ++ [.char ')'] ++ more)
  | fuel + 1, s :: rest => (groupLiteralsFrom opening fuel rest).map (s :: ·)

/-- The pattern with groups in the place of its literals; `none` if a literal is not closed. A
pattern with a quote loses its stray bytes. -/
def groupLiterals (opening pattern : Text) : Option Text :=
  if pattern.holds '"' then groupLiteralsFrom opening pattern.length pattern.repaired
    else some pattern

end Munch.Rule
