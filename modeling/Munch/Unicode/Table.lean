import Munch.CharSet

/-!
# Reading range tables

The tables of Unicode properties are lists of lines. A line holds ranges of code points in
hexadecimal, with a blank between each two: `41-5a 61-7a aa`.
-/

namespace Munch.Unicode

/-- The value of a hexadecimal digit in lower case. -/
def digit (c : Char) : Nat := if c.isDigit then c.toNat - 48 else c.toNat - 87

/-- A number of a table line. -/
def number (s : List Char) : Nat := s.foldl (fun n c => n * 16 + digit c) 0

/-- The pieces of a line between the characters `sep`. -/
def pieces (sep : Char) : List Char → List (List Char)
  | [] => [[]]
  | c :: rest =>
    match pieces sep rest with
    | [] => [[c]]
    | p :: ps => if c = sep then [] :: p :: ps else (c :: p) :: ps

/-- One range: `41-5a`, or `aa` for a single code point. -/
def range (s : List Char) : Nat × Nat :=
  match pieces '-' s with
  | [lo, hi] => (number lo, number hi)
  | _ => (number s, number s)

/-- The set that the lines of a table spell. -/
def setOf (lines : List String) : CharSet :=
  .ofRanges (lines.flatMap fun line => (pieces ' ' line.toList).map range)

/-- The set of a name in a table. -/
def find? (table : List (String × List String)) (name : String) : Option CharSet :=
  (table.find? (·.1 == name)).map fun entry => setOf entry.2

end Munch.Unicode
