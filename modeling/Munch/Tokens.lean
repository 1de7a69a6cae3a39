import Munch.Span
import Munch.Text.Quoted

/-!
# Tokens

Token names are declared; the type of a token is the number of its name, counted from 1 in the order
of declaration.
-/

namespace Munch

/-- The declared names, in the order of declaration. -/
structure TokenTable where
  names : List Text := []
  deriving DecidableEq, Repr, Inhabited

/-- A declared name with its type. -/
structure TokenTag where
  name : Text
  type : Nat
  deriving DecidableEq, Repr, Inhabited

/-- A tag in a message. -/
def TokenTag.toText (t : TokenTag) : Text :=
  Text.ofString "<token '" ++ t.name ++ "':" ++ Text.ofNat t.type ++ ">"

namespace TokenTable

/-- The tag of a declared name. -/
def find? (t : TokenTable) (name : Text) : Option TokenTag :=
  (t.names.findIdx? (· == name)).map fun i => ⟨name, i + 1⟩

/-- The table with the name declared, and its tag. -/
def declare (t : TokenTable) (name : Text) : TokenTag × TokenTable :=
  match t.find? name with
  | some tag => (tag, t)
  | none => (⟨name, t.names.length + 1⟩, ⟨t.names ++ [name]⟩)

/-- The name of a type; a type that belongs to no name is shown by its number. -/
def nameOf (t : TokenTable) (type : Int) : Text :=
  match (if type < 1 then none else t.names[(type - 1).toNat]?) with
  | some name => name
  | none => Text.ofString "<tok " ++ Text.ofInt type ++ ">"

end TokenTable

/-- What an action emits. -/
structure Token (υ : Type) where
  tag : TokenTag
  text : Text
  value : Option υ := none
  /-- the line after the match -/
  line : Nat
  span : Span
  deriving Repr, Inhabited

/-- A token in a message. -/
def Token.toText {υ : Type} (t : Token υ) : Text :=
  t.tag.name ++ Text.ofString "(" ++ t.text.quoted ++ ")"

end Munch
