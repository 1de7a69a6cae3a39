import Munch.Unicode.Category

/-!
# Printable characters

Letters, marks, numbers, punctuation and symbols are printable, and so is the ASCII space; all other
white space, controls, formats and unassigned code points are not.
-/

namespace Munch.Unicode

/-- The categories of printable characters. -/
def printableSet : CharSet :=
  ["L", "M", "N", "P", "S"].foldl (fun s name => s.union ((category? name).getD .empty))
    (.single 0x20)

/-- Is the code point printable? -/
def isPrintable (n : Nat) : Bool :=
  if n < 0x7F then 0x20 ≤ n else printableSet.has n

end Munch.Unicode
