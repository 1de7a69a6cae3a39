import Munch.Text.Blank

/-!
# Rule specifications

A rule is given by a pattern, with a list of states in angle brackets before it or without.
-/

namespace Munch.Rule

/-- The states that a rule is for. -/
inductive Target where
  /-- all inclusive states -/
  | unnamed
  /-- all states -/
  | every
  /-- the states named -/
  | named (states : List Text)
  deriving DecidableEq, Repr, Inhabited

/-- Splits a list of states off a specification. A list without any symbol in it is none. -/
def splitStates (spec : Text) : Option (List Text) × Text :=
  match spec with
  | .char '<' :: t =>
    match t.span (!·.is '>') with
    | ([], _) => (none, spec)
    | (_, []) => (none, spec)
    | (list, _ :: pattern) => (some ((Text.pieces ',' list).map Text.trim), pattern)
  | _ => (none, spec)

/-- The states a specification is for, and its pattern. -/
def splitSpec (spec : Text) : Target × Text :=
  match splitStates spec with
  | (none, pattern) => (.unnamed, pattern)
  | (some names, pattern) =>
    (if names = [Text.ofString "*"] then .every else .named names, pattern)

end Munch.Rule
