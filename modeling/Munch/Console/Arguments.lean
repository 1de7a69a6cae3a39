import Munch.Text.Basic

/-!
# The arguments of the command

Flags come first: `-rules` and `-trace`, with one or two minus signs, and with their value behind
`=` or in the next argument. The first argument that is no flag, or what follows `--`, starts the
files.
-/

namespace Munch.Console

/-- What the arguments ask for. -/
structure Arguments where
  /-- the rule file, empty for the small one -/
  rules : Text := []
  trace : Text := "Info"
  files : List Text := []
  deriving DecidableEq, Repr, Inhabited

/-- Why the command does not start. -/
inductive Refusal where
  /-- help was asked for -/
  | help
  /-- a flag is unknown, badly written or without a value -/
  | badFlag
  deriving DecidableEq, Repr, Inhabited

/-- An argument on its own. -/
inductive Argument where
  | file
  /-- the flags end here -/
  | dashes
  | flag (name : Text) (value : Option Text)
  | malformed
  deriving DecidableEq, Repr, Inhabited

/-- The name and the value of a flag, divided by the first `=` behind the first symbol. -/
def splitFlag (t : Text) : Text × Option Text :=
  match t with
  | [] => ([], none)
  | s :: rest =>
    let name := s :: rest.takeWhile (!·.is '=')
    match rest.dropWhile (!·.is '=') with
    | [] => (name, none)
    | _ :: value => (name, some value)

/-- Reads the part of a flag behind its minus signs. -/
def readFlag (t : Text) : Argument :=
  match t with
  | [] => .malformed
  | s :: _ =>
    if s.is '-' || s.is '=' then .malformed
    else
      let (name, value) := splitFlag t
      .flag name value

/-- Reads an argument. A minus sign alone is a file. -/
def readArgument : Text → Argument
  | [] => .file
  | [_] => .file
  | s :: t :: rest =>
    if !s.is '-' then .file
    else if !t.is '-' then readFlag (t :: rest)
    else if rest.isEmpty then .dashes
    else readFlag rest

/-- Sets a flag; `none` if it is unknown. -/
def Arguments.set? (a : Arguments) (name value : Text) : Option Arguments :=
  if name = Text.ofString "rules" then some { a with rules := value }
  else if name = Text.ofString "trace" then some { a with trace := value }
  else none

/-- The reason to refuse a flag that is unknown. -/
def refusalFor (name : Text) : Refusal :=
  if name = Text.ofString "help" ∨ name = Text.ofString "h" then .help else .badFlag

/-- Reads arguments on top of those read before. -/
def Arguments.read (a : Arguments) : List Text → Except Refusal Arguments
  | [] => .ok a
  | arg :: rest =>
    match readArgument arg with
    | .file => .ok { a with files := arg :: rest }
    | .dashes => .ok { a with files := rest }
    | .malformed => .error .badFlag
    | .flag name (some value) =>
      match a.set? name value with
      | some a => a.read rest
      | none => .error (refusalFor name)
    | .flag name none =>
      match rest with
      | [] => .error (if (a.set? name []).isSome then .badFlag else refusalFor name)
      | value :: rest =>
        match a.set? name value with
        | some a => a.read rest
        | none => .error (refusalFor name)

end Munch.Console
