import Munch.Span
import Munch.States

/-!
# The context of a match

The context says where a scan is: the active state, the line, the most recent match and the name of
the source. An action gets a copy of it. Some of its values can be asked for by name.
-/

namespace Munch

/-- Where a scan is. -/
structure Context where
  state : Text := States.initial
  /-- the current line, counted from 1 -/
  line : Nat := 1
  /-- the text of the most recent match -/
  text : Text := []
  span : Span := {}
  /-- the name of the source -/
  input : Option Text := none
  deriving DecidableEq, Repr, Inhabited

/-- The values of a context that have a name. -/
inductive ContextKey where
  | line
  | text
  | state
  | input
  deriving DecidableEq, Repr, Inhabited

/-- The keys in the order of their numbers. -/
def ContextKey.all : List ContextKey := [.line, .text, .state, .input]

/-- The name of a key. -/
def ContextKey.name : ContextKey → Text
  | .line => "lineno"
  | .text => "text"
  | .state => "state"
  | .input => "inputDescriptor"

/-- The key of a name. -/
def ContextKey.ofName? (name : Text) : Option ContextKey := ContextKey.all.find? (·.name = name)

/-- The number of a key. -/
def ContextKey.number (k : ContextKey) : Nat := ContextKey.all.idxOf k

/-- The name of the key with a number; a number without a key has a name too. -/
def ContextKey.nameAt (n : Int) : Text :=
  match (if n < 0 then none else ContextKey.all[n.toNat]?) with
  | some k => k.name
  | none => "<unknown>"

/-- A value of a context. -/
inductive ContextValue where
  | number (n : Nat)
  | text (t : Text)
  | nothing
  deriving DecidableEq, Repr, Inhabited

/-- The value of a key. -/
def Context.value (c : Context) : ContextKey → ContextValue
  | .line => .number c.line
  | .text => .text c.text
  | .state => .text c.state
  | .input => match c.input with
    | some name => .text name
    | none => .nothing

end Munch
