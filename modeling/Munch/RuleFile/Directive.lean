import Munch.Lexer.Scan

/-!
# Directives

A rule of a rule file says what to do with a match in a few words: `skip`, `echo`, `emit` with the
name of a token, `begin` with the name of a state. The words are read into directives, which are
followed from left to right. The last `emit` or `skip` decides what becomes of the match; a `begin`
of a state that is not declared ends the scan.

* `Directive.parse` reads words.
* `Directive.follow` follows directives, and `Directive.scan` scans a source with rules that have
  them.
-/

namespace Munch

/-- A step of the action of a rule. -/
inductive Directive where
  /-- drop the match -/
  | skip
  /-- put the text of the match out -/
  | echo
  /-- emit a token -/
  | emit (name : Text)
  /-- make another state the active one -/
  | begin (state : Text)
  deriving DecidableEq, Repr, Inhabited

/-- What a scan puts out. The tokens of a rule file have no values. -/
inductive Output where
  | echoed (text : Text)
  | token (t : Token Empty)
  deriving Inhabited

/-- A lexer whose actions are directives. -/
abbrev DirectedLexer := Lexer (List Directive) Unit

/-- A directive without the word that it is about. -/
def Error.needsArgument (word : Text) : Error :=
  .other (Text.ofString "action " ++ word.quoted ++ " needs an argument")

/-- A word that is no directive. -/
def Error.unknownAction (word : Text) : Error :=
  .other (Text.ofString "unknown action " ++ word.quoted)

namespace Directive

/-- Reads words. The word behind `emit` and `begin` is taken as it is. -/
def parse : List Text → Except Error (List Directive)
  | [] => .ok []
  | word :: rest =>
    if word = Text.ofString "skip" then (parse rest).map (skip :: ·)
    else if word = Text.ofString "echo" then (parse rest).map (echo :: ·)
    else if word = Text.ofString "emit" then
      match rest with
      | [] => .error (.needsArgument word)
      | name :: rest => (parse rest).map (emit name :: ·)
    else if word = Text.ofString "begin" then
      match rest with
      | [] => .error (.needsArgument word)
      | state :: rest => (parse rest).map (begin state :: ·)
    else .error (.unknownAction word)

/-- The words of a directive. -/
def words : Directive → List Text
  | skip => ["skip"]
  | echo => ["echo"]
  | emit name => ["emit", name]
  | begin state => ["begin", state]

/-- Follows directives for a match. What is put out goes in front of `out`. -/
def follow (c : Context) : List Directive → Reply Empty → DirectedLexer → (out : List Output) →
    Reply Empty × DirectedLexer × List Output
  | [], reply, lx, out => (reply, lx, out)
  | skip :: ds, _, lx, out => follow c ds { signal := .skip } lx out
  | echo :: ds, reply, lx, out => follow c ds reply lx (.echoed c.text :: out)
  | emit name :: ds, _, lx, out => follow c ds { token := name } lx out
  | begin state :: ds, reply, lx, out =>
    match lx.begin state with
    | .ok lx => follow c ds reply lx out
    | .error e => ({ signal := .fail, error := some e }, lx, out)

/-- Actions follow their directives, and tokens are put out. The latest output comes first. -/
def host : Host (List Directive) Unit Empty (List Output) where
  act ds c lx out := follow c ds {} lx out
  deliver _ t lx out := (lx, .token t :: out)

/-- Scans a source from its start. Every match takes a rune at least, which bounds the number of
steps. -/
def scan (lx : DirectedLexer) (s : Source) : Lexer.Outcome × List Output × DirectedLexer :=
  match lx.attach (.source s) with
  | .error e => (.failed e, [], lx)
  | .ok lx =>
    let (outcome, lx, out) := lx.lex host (s.pending.length + 1) []
    (outcome, out.reverse, lx)

end Directive

end Munch
