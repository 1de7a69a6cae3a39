import Munch.Text.Basic

/-!
# States

A rule is bound to states, and one state is active. States are inclusive or exclusive: a rule
without a list of states is bound to the inclusive ones.

`States.declare?` puts a state into a class; a state of the other class moves over, to the end of
its new class.
-/

namespace Munch

/-- The classes of states. -/
inductive StateClass where
  | inclusive
  | exclusive
  deriving DecidableEq, Repr, Inhabited

/-- The declared states, and those of each class, each in the order in which they came in. -/
structure States where
  all : List Text
  inclusive : List Text
  exclusive : List Text
  deriving DecidableEq, Repr, Inhabited

namespace States

/-- The state that every lexer starts in. -/
def initial : Text := "initial"

/-- Only `initial` is declared. -/
def default : States := ⟨[initial], [initial], []⟩

/-- Has the state been declared? -/
def isDeclared (s : States) (name : Text) : Bool := s.all.contains name

/-- Is the state exclusive? -/
def isExclusive (s : States) (name : Text) : Bool := s.isDeclared name && s.exclusive.contains name

/-- Adds a name that is not there at the end. -/
def add (name : Text) (names : List Text) : List Text :=
  if names.contains name then names else names ++ [name]

/-- Declares a state. `none` if it has been declared with this class. -/
def declare? (s : States) (name : Text) : StateClass → Option States
  | .inclusive =>
    if s.inclusive.contains name then none
    else some ⟨add name s.all, s.inclusive ++ [name], s.exclusive.erase name⟩
  | .exclusive =>
    if s.exclusive.contains name then none
    else some ⟨add name s.all, s.inclusive.erase name, s.exclusive ++ [name]⟩

end States

end Munch
