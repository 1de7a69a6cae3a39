import Munch.Console.Arguments
import Munch.Console.LineEditor
import Munch.Console.Printing
import Munch.RuleFile.Demo

/-!
# The command

With files the command scans one after the other and prints their tokens. Without it reads lines: a
line is scanned, or it is one of the commands `:rules` and `:quit`.

* `start` reads the arguments, loads the rules and scans the files.
* `Dialog.press` and `Dialog.close` lead the dialog, key by key.
* `run` is the command as a function of its arguments, the files and its input.
-/

namespace Munch.Console

/-- What is found under the name of a file. -/
inductive Found where
  | content (t : Text)
  | directory
  /-- it cannot be opened -/
  | refused (reason : Text)
  deriving DecidableEq, Repr, Inhabited

/-- The error for a file that cannot be opened. -/
def cannotOpen (name reason : Text) : Error :=
  .other (Text.ofString "open " ++ name ++ ": " ++ reason)

/-- The wording of the error when a directory is read. -/
def isDirectory (name : Text) : Text := Text.ofString "read " ++ name ++ ": is a directory"

/-- The exit code if the rules cannot be loaded, the arguments are bad, or the matcher breaks
down. -/
def failureCode : Nat := 2

/-- Loads the rules that the arguments ask for. -/
def loadRules (files : Text → Found) (name : Text) : Except Error DirectedLexer :=
  if name.isEmpty then RuleFile.load RuleFile.demo
  else
    match files name with
    | .content t => RuleFile.load t
    | .directory => .error (.other (isDirectory name))
    | .refused reason => .error (cannotOpen name reason)

/-- A scan as it is printed: what it puts out, and its error. `none` instead of a lexer if the
matcher breaks down. -/
def scanned (lx : DirectedLexer) (s : Source) : Text × Bool × Option DirectedLexer :=
  let (outcome, out, lx) := Directive.scan { lx with journal := [] } s
  let text := out.flatMap printed
  match outcome with
  | .finished => (text, true, some lx)
  | .failed e => (text ++ message .error e.message, false, some lx)
  | .broken => (text, false, none)
  | .unfinished => (text, false, none)

/-- Scans a file. -/
def scanFile (files : Text → Found) (name : Text) (lx : DirectedLexer) :
    Text × Bool × Option DirectedLexer :=
  match files name with
  | .content t => scanned lx (.ofReader t .ended name)
  | .directory => scanned lx (.ofReader [] (.broken (isDirectory name)) name)
  | .refused reason => (message .error (cannotOpen name reason).message, false, some lx)

/-- Scans files one after the other. The exit code tells whether one of them failed. -/
def scanFiles (files : Text → Found) :
    (names : List Text) → (code : Nat) → DirectedLexer → Text × Nat
  | [], code, _ => ([], code)
  | name :: names, code, lx =>
    match scanFile files name lx with
    | (text, _, none) => (text, failureCode)
    | (text, succeeded, some lx) =>
      let (rest, code) := scanFiles files names (if succeeded then code else 1) lx
      (text ++ rest, code)

/-! ## The dialog -/

/-- A dialog: the lexer and the line begun. -/
structure Dialog where
  lexer : DirectedLexer
  editor : LineEditor := {}

/-- Where the command is: in a dialog, or over with an exit code. -/
inductive Stage where
  | talking (d : Dialog)
  | ended (code : Nat)

/-- Answers a line. -/
def Dialog.answer (line : Text) (d : Dialog) : Text × Stage :=
  let line := line.trim
  if line.isEmpty then ([], .talking d)
  else if line = Text.ofString ":quit" then ([], .ended 0)
  else if line = Text.ofString ":rules" then
    (tree (RuleFile.outline d.lexer) ++ newline, .talking d)
  else
    match scanned d.lexer (.ofText (line ++ newline)) with
    | (text, _, some lx) => (text, .talking { d with lexer := lx })
    | (text, _, none) => (text, .ended failureCode)

/-- Takes the response of the line editor up. -/
def Dialog.take (d : Dialog) : Response × LineEditor → Text × Stage
  | (.nothing, e) => ([], .talking { d with editor := e })
  | (.bell, e) => ([.char '\x07'], .talking { d with editor := e })
  | (.entered line, e) => Dialog.answer line { d with editor := e }
  | (.closed, _) => ([], .ended 0)

/-- Presses a key. -/
def Dialog.press (key : Rune) (d : Dialog) : Text × Stage := d.take (d.editor.press key)

/-- Presses keys until the dialog is over. -/
def Dialog.pressAll : List Rune → Dialog → Text × Stage
  | [], d => ([], .talking d)
  | key :: keys, d =>
    match d.press key with
    | (text, .ended code) => (text, .ended code)
    | (text, .talking d) =>
      let (rest, stage) := Dialog.pressAll keys d
      (text ++ rest, stage)

/-- The input ends: a line that is begun is answered. Returns the exit code too. -/
def Dialog.close (d : Dialog) : Text × Nat :=
  match d.take d.editor.finish with
  | (text, .ended code) => (text, code)
  | (text, .talking _) => (text, 0)

/-! ## The whole command -/

/-- Reads the arguments, loads the rules and scans the files; without files a dialog begins. -/
def start (args : List Text) (files : Text → Found) : Text × Stage :=
  match ({} : Arguments).read args with
  | .error .help => ([], .ended 0)
  | .error .badFlag => ([], .ended failureCode)
  | .ok a =>
    match loadRules files a.rules with
    | .error e => (message .error e.message, .ended failureCode)
    | .ok lx =>
      let warnings := lx.warnings.flatMap fun w => message .warning w.message
      if a.files.isEmpty then
        (warnings ++ message .info "Welcome to flexi", .talking { lexer := lx })
      else
        let (text, code) := scanFiles files a.files 0 lx
        (warnings ++ text, .ended code)

/-- The names of the files that the arguments ask for. -/
def filesOf (args : List Text) : List Text :=
  match ({} : Arguments).read args with
  | .error _ => []
  | .ok a => (if a.rules.isEmpty then [] else [a.rules]) ++ a.files

/-- What the command prints for its arguments, the files and its input, and its exit code. -/
def run (args : List Text) (files : Text → Found) (input : Text) : Text × Nat :=
  match start args files with
  | (text, .ended code) => (text, code)
  | (text, .talking d) =>
    match d.pressAll input.runes with
    | (more, .ended code) => (text ++ more, code)
    | (more, .talking d) =>
      let (last, code) := d.close
      (text ++ more ++ last, code)

end Munch.Console
