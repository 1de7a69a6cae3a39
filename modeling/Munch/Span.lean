import Munch.Text.Basic

/-!
# Spans

A span is a start position and the position just behind the end, counted in runes. Positions are
words of 64 bits, and so is the length, which wraps around if the end comes first.
-/

namespace Munch

/-- A start position and the position just behind the end. -/
structure Span where
  start : Nat := 0
  stop : Nat := 0
  deriving DecidableEq, Repr, Inhabited

namespace Span

/-- The length of a span, modulo 2⁶⁴. -/
def length (s : Span) : Nat := (s.stop + wordCount - s.start) % wordCount

/-- Does the span start and stop at 0? -/
def isNull (s : Span) : Bool := s.start = 0 && s.stop = 0

/-- The span moved out to the start and the end of another one, where these lie further out. -/
def extend (s other : Span) : Span := ⟨min s.start other.start, max s.stop other.stop⟩

/-- A span in a message. -/
def toText (s : Span) : Text :=
  Text.ofString "(" ++ Text.ofNat s.start ++ "…" ++ Text.ofNat s.stop ++ ")"

end Span

end Munch
