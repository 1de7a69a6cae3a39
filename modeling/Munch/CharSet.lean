import Munch.Text.Basic

/-!
# Sets of code points

A `CharSet` is a list of closed ranges of code points, in increasing order with a gap between each
two, so that equal sets are equal lists. Every set is built by `insert`, which keeps that form.

* `union`, `complement limit` and `closure orbits` are the operations patterns need.
* `contains` asks for a rune: a rune outside the ranges, a negative one say, is in no set.
-/

namespace Munch

/-- The greatest code point. -/
def maxPoint : Nat := 0x10FFFF

/-- A set of code points: disjoint ranges in increasing order, no two of them adjacent. -/
structure CharSet where
  ranges : List (Nat × Nat)
  deriving DecidableEq, Repr, Inhabited

namespace CharSet

/-- The empty set. -/
def empty : CharSet := ⟨[]⟩

/-- Adds the range from `lo` to `hi`, melting it with every range it overlaps or touches. -/
def insertRange (lo hi : Nat) : List (Nat × Nat) → List (Nat × Nat)
  | [] => [(lo, hi)]
  | (a, b) :: rest =>
    if hi + 1 < a then (lo, hi) :: (a, b) :: rest
    else if b + 1 < lo then (a, b) :: insertRange lo hi rest
    else insertRange (min lo a) (max hi b) rest

/-- The set with the range from `lo` to `hi` added. -/
def insert (s : CharSet) (lo hi : Nat) : CharSet := ⟨insertRange lo hi s.ranges⟩

/-- The set of the code points in any of the ranges. -/
def ofRanges (rs : List (Nat × Nat)) : CharSet := rs.foldr (fun (lo, hi) s => s.insert lo hi) empty

/-- The range from `lo` to `hi` as a set. -/
def range (lo hi : Nat) : CharSet := ⟨[(lo, hi)]⟩

/-- The set of one code point. -/
def single (n : Nat) : CharSet := range n n

/-- The union of two sets. -/
def union (s t : CharSet) : CharSet := s.ranges.foldr (fun (lo, hi) u => u.insert lo hi) t

/-- The ranges from `start` to `limit` that lie between those given. -/
def gaps (limit : Nat) : (start : Nat) → List (Nat × Nat) → List (Nat × Nat)
  | start, [] => if start ≤ limit then [(start, limit)] else []
  | start, (lo, hi) :: rest =>
    if start < lo then (start, lo - 1) :: gaps limit (hi + 1) rest else gaps limit (hi + 1) rest

/-- The code points up to `limit` that are not in the set. -/
def complement (limit : Nat) (s : CharSet) : CharSet := ⟨gaps limit 0 s.ranges⟩

/-- Is the code point in the set? -/
def has (s : CharSet) (n : Nat) : Bool := s.ranges.any fun (lo, hi) => lo ≤ n && n ≤ hi

/-- Is the rune in the set? -/
def contains (s : CharSet) (r : Rune) : Bool := 0 ≤ r && s.has r.toNat

/-- The set with every orbit added that it meets. -/
def closure (orbits : List (List Nat)) (s : CharSet) : CharSet :=
  orbits.foldl (fun t orbit =>
    if orbit.any s.has then orbit.foldl (fun u n => u.insert n n) t else t) s

/-- All code points. -/
def all : CharSet := range 0 maxPoint

/-- All code points but the newline. -/
def notNewline : CharSet := ⟨[(0, 9), (11, maxPoint)]⟩

end CharSet

end Munch
