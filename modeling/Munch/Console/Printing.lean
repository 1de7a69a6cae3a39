import Munch.RuleFile.Load

/-!
# What the console prints

Messages start with a tag that says what they are; further lines of a message are indented as far as
its first line. Rules are printed as a tree with two levels.
-/

namespace Munch.Console

/-- The kinds of messages. -/
inductive Kind where
  | info
  | error
  | warning
  deriving DecidableEq, Repr, Inhabited

/-- The tag of a kind. -/
def Kind.tag : Kind → Text
  | .info => "  >>"
  | .error => "  Error"
  | .warning => "WARNING"

/-- As many blanks. -/
def blanks (n : Nat) : Text := List.replicate n (.char ' ')

/-- A newline as a text. -/
def newline : Text := [.char '\n']

/-- The text without the newlines it ends with. -/
def dropNewlines (t : Text) : Text := (t.reverse.dropWhile (·.is '\n')).reverse

/-- A message as it is printed. -/
def message (k : Kind) (t : Text) : Text :=
  let indent := newline ++ blanks (k.tag.length + 3)
  blanks 1 ++ k.tag ++ blanks 2 ++ Text.join indent (Text.pieces '\n' (dropNewlines t)) ++ newline

/-- The text filled up with blanks behind it. -/
def padded (width : Nat) (t : Text) : Text := t ++ blanks (width - t.length)

/-- A number filled up with blanks in front of it. -/
def aligned (width : Nat) (n : Nat) : Text := blanks (width - (Text.ofNat n).length) ++ Text.ofNat n

/-- A token as it is printed: its line, its name, its text. -/
def tokenLine (t : Token Empty) : Text :=
  aligned 4 t.line ++ blanks 2 ++ padded 8 t.tag.name ++ blanks 1 ++ t.text.quoted

/-- An output of a scan as it is printed. -/
def printed : Output → Text
  | .echoed text => text
  | .token t => message .info (tokenLine t)

/-- The lines of a list of leaves behind an indent. -/
def leaves (indent : Text) : List Text → Text
  | [] => []
  | [t] => indent ++ "└──" ++ t ++ newline
  | t :: ts => indent ++ "├──" ++ t ++ newline ++ leaves indent ts

/-- An entry of a tree with its leaves. -/
def branch (isLast : Bool) (label : Text) (below : List Text) : Text :=
  Text.ofString (if isLast then "└─" else "├─") ++ (if below.isEmpty then "─" else "┬") ++ label ++
    newline ++ leaves (if isLast then "  " else "│ ") below

/-- A tree with two levels. -/
def tree : List (Text × List Text) → Text
  | [] => []
  | [(label, below)] => branch true label below
  | (label, below) :: rest => branch false label below ++ tree rest

end Munch.Console
