import Munch.Error
import Munch.Tokens

/-!
# Lexemes

The lexeme of a token is its text. Anything else that can stand in the place of a token has a lexeme
too: the way it is written in a message.

A `PlainToken` is a token that no rule has emitted, such as the one behind the end of the input.
-/

namespace Munch

/-- A token with nothing but a type, a lexeme, a value and a span. -/
structure PlainToken (υ : Type) where
  type : Int
  lexeme : Text
  value : Option υ := none
  span : Span := {}
  deriving Repr, Inhabited

namespace PlainToken

variable {υ : Type}

/-- The type of the token behind the end of the input. -/
def endType : Int := -1

/-- The token behind the end of the input. -/
def ending : PlainToken υ := ⟨endType, [], none, {}⟩

/-- Is this a token behind the end of the input? -/
def isEnding (t : PlainToken υ) : Bool := t.type = endType

end PlainToken

/-- What has a lexeme. -/
inductive Item (υ : Type) where
  | text (t : Text)
  | token (t : Token υ)
  | plain (t : PlainToken υ)
  | number (n : Int)
  | bool (b : Bool)
  | texts (ts : List Text)
  | span (s : Span)
  | error (e : Error)
  | nothing
  deriving Repr, Inhabited

/-- The lexeme of an item. -/
def Item.lexeme {υ : Type} : Item υ → Text
  | .text t => t
  | .token t => t.text
  | .plain t => t.lexeme
  | .number n => Text.ofInt n
  | .bool b => if b then "true" else "false"
  | .texts ts => Text.ofString "[" ++ Text.join " " ts ++ "]"
  | .span s => s.toText
  | .error e => e.message
  | .nothing => "<nil>"

end Munch
