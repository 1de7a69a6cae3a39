import Munch.Error
import Munch.Text.Template

/-!
# Warnings and notices

A lexer collects warnings about its rules and states, and notices about everything it does. Most
notices have level debug, or info if option `verbose` is on.
-/

namespace Munch

/-- What a lexer warns of. -/
inductive Warning where
  /-- a state is declared again with the class it has -/
  | redeclared (state : Text) (exclusive : Bool)
  /-- a rule refers to a name that is not defined -/
  | undefinedName (spec name : Text)
  deriving DecidableEq, Repr, Inhabited

/-- The wording of a warning. -/
def Warning.message : Warning → Text
  | .redeclared state exclusive =>
    Text.ofString "state " ++ state.quoted ++ " already declared as " ++
      (if exclusive then "exclusive" else "inclusive")
  | .undefinedName spec name =>
    Text.ofString "rule " ++ spec.quoted ++ " refers to undefined definition \x7b" ++ name ++ "\x7d"

/-- What a lexer or a tokenizer does. -/
inductive Notice where
  | defined (name fragment : Text)
  | warned (w : Warning)
  | replaced (pattern state : Text)
  | bound (pattern : Text) (states : List Text)
  | began (line : Nat) (before after : Text)
  | reattached (line : Nat)
  | inputEnded (runes : Nat)
  | inputBuffered (bytes : Nat)
  | compiling (state : Text) (rules : Nat)
  | notCompiled (e : Error)
  | matched (line : Nat) (state text : Text)
  | exhausted (line : Nat)
  | failed (e : Error)
  /-- a tokenizer without a handler meets an error -/
  | reported (e : Error)
  /-- a tokenizer has no more tokens -/
  | tokensEnded
  deriving DecidableEq, Repr, Inhabited

/-- How important a notice is. -/
inductive Level where
  | error
  | info
  | debug
  deriving DecidableEq, Repr, Inhabited

/-- A notice with its level. -/
structure Entry where
  level : Level
  notice : Notice
  deriving DecidableEq, Repr, Inhabited

/-- The wording of a notice. The report of a tokenizer takes the wording of the error for a
template. -/
def Notice.message : Notice → Text
  | .defined name fragment => Text.ofString "definition " ++ name ++ " = " ++ fragment.quoted
  | .warned w => Text.ofString "warning: " ++ w.message
  | .replaced pattern state =>
    Text.ofString "rule " ++ pattern.quoted ++ " in state " ++ state.quoted ++ " replaced"
  | .bound pattern states =>
    Text.ofString "rule " ++ pattern.quoted ++ " bound to states [" ++ Text.join " " states ++ "]"
  | .began line before after =>
    Text.ofString "line " ++ Text.ofNat line ++ ": state " ++ before ++ " -> " ++ after
  | .reattached line =>
    Text.ofString "line " ++ Text.ofNat line ++
      ": new source attached during scan, discarding input"
  | .inputEnded runes => Text.ofString "end of input after " ++ Text.ofNat runes ++ " runes"
  | .inputBuffered bytes =>
    Text.ofString "DFA matcher buffered " ++ Text.ofNat bytes ++ " bytes of input"
  | .compiling state rules =>
    Text.ofString "compiling DFA for state " ++ state.quoted ++ " with " ++
      Text.ofNat rules ++ " rules"
  | .notCompiled e => Text.ofString "error compiling DFA: " ++ e.message
  | .matched line state text =>
    Text.ofString "line " ++ Text.ofNat line ++ ": <" ++ state ++ "> match " ++ text.quoted
  | .exhausted line => Text.ofString "input exhausted at line " ++ Text.ofNat line
  | .failed e => Text.ofString "lexer: " ++ e.message
  | .reported e => (Text.ofString "scanner error: " ++ e.message).filled
  | .tokensEnded => "FlexTokenizer reached end of input"

/-- The error a notice is about. -/
def Notice.error? : Notice → Option Error
  | .notCompiled e => some e
  | .failed e => some e
  | .reported e => some e
  | _ => none

/-- Does the notice come from a tokenizer? -/
def Notice.fromTokenizer : Notice → Bool
  | .reported _ => true
  | .tokensEnded => true
  | _ => false

end Munch
