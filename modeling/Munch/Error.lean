import Munch.Text.Quoted
import Munch.Pattern.Fault

/-!
# Errors

An error is a cause, with the error it comes from where there is one. `Error.message` is the wording
of all of them, and `Error.chain` an error followed by everything it comes from.
-/

namespace Munch

/-- Where no rule matches: the rune there, and a few runes of the input from it on. -/
structure Mismatch where
  line : Int
  state : Text
  rune : Rune
  context : Text
  deriving DecidableEq, Repr, Inhabited

/-- What can go wrong. -/
inductive Error where
  /-- an option that does not exist -/
  | unknownOption (name : Text)
  /-- a context value that does not exist -/
  | unknownValue (key : Text)
  /-- a state that has not been declared -/
  | undeclaredState (state : Text)
  /-- a definition under a name that is taken -/
  | redefined (name : Text)
  /-- something that is no source of runes, given by what it is -/
  | notASource (what : Text)
  /-- a read error of a source -/
  | unreadable (reason : Error)
  /-- a pattern that cannot be compiled -/
  | badPattern (pattern : Text) (reason : Error)
  /-- a token that has not been declared -/
  | undeclaredToken (name : Text) (line : Int)
  /-- no rule matches -/
  | noMatch (m : Mismatch)
  /-- an action failed -/
  | actionFailed (line : Int) (text : Text) (reason : Error)
  /-- a fault in the text of a pattern -/
  | fault (f : Pattern.Fault)
  /-- a pattern over bytes that cannot be read -/
  | unreadableBytes
  /-- the scan was canceled -/
  | canceled
  /-- the scan took too long -/
  | deadlineExceeded
  /-- there is no more input -/
  | endOfInput
  /-- no error, in the place of one -/
  | absent
  /-- any other reason -/
  | other (message : Text)
  /-- an error in a line of a rule file -/
  | inLine (line : Nat) (reason : Error)
  deriving DecidableEq, Repr, Inhabited

namespace Error

/-- The scan loop is called from within an action. -/
def reentrant : Error :=
  .other "lexer is already scanning; Lex and Step must not be called from actions"

/-- An action failed without giving a reason. -/
def noReason : Error := .other "action failed"

/-- A quoted literal is not closed. -/
def openQuote : Error := .other "missing closing '\"'"

/-- A pattern over bytes matches the empty text. -/
def matchesEmpty : Error := .other "One or more of the supplied patterns match the empty string"

/-- The wording of an error. -/
def message : Error → Text
  | .unknownOption name => Text.ofString "lexer option " ++ name.quoted ++ " does not exist"
  | .unknownValue key => Text.ofString "lexer value " ++ key.quoted ++ " does not exist"
  | .undeclaredState state => Text.ofString "lexer state " ++ state.quoted ++ " does not exist"
  | .redefined name => Text.ofString "lexer definition " ++ name.quoted ++ " already defined"
  | .notASource what =>
    what ++ " is not a valid text source; source must provide AtEOF and NextRune"
  | .unreadable reason => Text.ofString "error reading lexer source: " ++ reason.message
  | .badPattern pattern reason =>
    Text.ofString "cannot compile pattern " ++ pattern.quoted ++ ": " ++ reason.message
  | .undeclaredToken name line =>
    Text.ofString "line " ++ Text.ofInt line ++ ": token " ++ name.quoted ++
      " has not been declared"
  | .noMatch m =>
    Text.ofString "line " ++ Text.ofInt m.line ++ ": no rule in state " ++ m.state.quoted ++
      " matches " ++ m.rune.label ++ " at " ++ m.context.quoted
  | .actionFailed line text reason =>
    Text.ofString "line " ++ Text.ofInt line ++ ": action for " ++ text.quoted ++ " failed: " ++
      reason.message
  | .fault f => f.message
  | .unreadableBytes => "the pattern cannot be read"
  | .canceled => "context canceled"
  | .deadlineExceeded => "context deadline exceeded"
  | .endOfInput => "EOF"
  | .absent => "<nil>"
  | .other message => message
  | .inLine line reason => Text.ofString "line " ++ Text.ofNat line ++ ": " ++ reason.message

/-- An error and all that it comes from, outermost first. -/
def chain : Error → List Error
  | .unreadable reason => .unreadable reason :: reason.chain
  | .badPattern pattern reason => .badPattern pattern reason :: reason.chain
  | .actionFailed line text reason => .actionFailed line text reason :: reason.chain
  | .inLine line reason => .inLine line reason :: reason.chain
  | .absent => []
  | e => [e]

end Error

end Munch
