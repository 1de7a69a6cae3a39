import Munch.Text.Basic

/-!
# Why a pattern cannot be read

A `Fault` is a cause together with the excerpt of the pattern it is about.
-/

namespace Munch.Pattern

/-- Why a pattern cannot be read. -/
inductive Cause where
  | invalidRange
  | invalidEscape
  | invalidName
  | invalidGroup
  | nestedRepeat
  | repeatCount
  | invalidEncoding
  | missingBracket
  | missingParen
  | missingOperand
  | trailingBackslash
  | unexpectedParen
  | tooDeep
  | tooLarge
  deriving DecidableEq, Repr, Inhabited

/-- The wording of a cause. -/
def Cause.wording : Cause → String
  | .invalidRange => "invalid character class range"
  | .invalidEscape => "invalid escape sequence"
  | .invalidName => "invalid named capture"
  | .invalidGroup => "invalid or unsupported Perl syntax"
  | .nestedRepeat => "invalid nested repetition operator"
  | .repeatCount => "invalid repeat count"
  | .invalidEncoding => "invalid UTF-8"
  | .missingBracket => "missing closing ]"
  | .missingParen => "missing closing )"
  | .missingOperand => "missing argument to repetition operator"
  | .trailingBackslash => "trailing backslash at end of expression"
  | .unexpectedParen => "unexpected )"
  | .tooDeep => "expression nests too deeply"
  | .tooLarge => "expression too large"

/-- A cause, and the part of the pattern it is about. -/
structure Fault where
  cause : Cause
  excerpt : Text
  deriving DecidableEq, Repr, Inhabited

/-- The message of a fault. -/
def Fault.message (f : Fault) : Text :=
  Text.ofString "error parsing regexp: " ++ f.cause.wording ++ ": `" ++ f.excerpt ++ "`"

end Munch.Pattern
