import Munch.CharSet
import Munch.Unicode.Category
import Munch.Unicode.Script
import Munch.Unicode.Folding

/-!
# Character classes with a name

Three families of names: the letters behind a backslash (`\d`), the ASCII names between colons
(`[:alpha:]`), and Unicode categories and scripts (`\p{Greek}`).
-/

namespace Munch.Pattern

/-- Digits. -/
def digits : CharSet := .range 48 57

/-- Tab, newline, form feed, carriage return and space. -/
def spaces : CharSet := ⟨[(9, 10), (12, 13), (32, 32)]⟩

/-- Digits, letters and the underscore. -/
def wordPoints : CharSet := ⟨[(48, 57), (65, 90), (95, 95), (97, 122)]⟩

/-- The set closed under case folding, if `fold` says so. -/
def foldedSet (fold : Bool) (s : CharSet) : CharSet := if fold then s.closure Unicode.orbits else s

/-- The set, or its complement among all code points. -/
def signedSet (negated : Bool) (s : CharSet) : CharSet :=
  if negated then s.complement maxPoint else s

/-- The class of a letter behind a backslash, and whether it is negated. -/
def letterClass? : Char → Option (Bool × CharSet)
  | 'd' => some (false, digits)
  | 'D' => some (true, digits)
  | 's' => some (false, spaces)
  | 'S' => some (true, spaces)
  | 'w' => some (false, wordPoints)
  | 'W' => some (true, wordPoints)
  | _ => none

/-- The ASCII classes with a name. -/
def asciiClass? : String → Option CharSet
  | "alnum" => some ⟨[(48, 57), (65, 90), (97, 122)]⟩
  | "alpha" => some ⟨[(65, 90), (97, 122)]⟩
  | "ascii" => some (.range 0 127)
  | "blank" => some ⟨[(9, 9), (32, 32)]⟩
  | "cntrl" => some ⟨[(0, 31), (127, 127)]⟩
  | "digit" => some digits
  | "graph" => some (.range 33 126)
  | "lower" => some (.range 97 122)
  | "print" => some (.range 32 126)
  | "punct" => some ⟨[(33, 47), (58, 64), (91, 96), (123, 126)]⟩
  | "space" => some ⟨[(9, 13), (32, 32)]⟩
  | "upper" => some (.range 65 90)
  | "word" => some wordPoints
  | "xdigit" => some ⟨[(48, 57), (65, 70), (97, 102)]⟩
  | _ => none

/-- The set of a Unicode category or script; `Any` is the set of all code points. -/
def unicodeClass? (name : String) : Option CharSet :=
  if name = "Any" then some .all
  else (Unicode.category? name).or (Unicode.script? name)

end Munch.Pattern
