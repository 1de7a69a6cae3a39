import Munch.RuleFile.Directive
import Munch.Text.Blank

/-!
# The lines of a rule file

A rule file has two sections, divided by the line `%%`. A line of the first one declares something,
a line of the second one is a clause: a rule, or a default for what no rule matches. A line is read
into a value, and the value is applied to a lexer.

* `Declaration.parse`, `Clause.parse` read a line that is trimmed and not empty.
* `Declaration.apply`, `Clause.apply` make the calls that it stands for.
* `splitRule` cuts a rule at the first blank or tab that is not escaped, quoted or in a class.
-/

namespace Munch.RuleFile

/-! ## Declarations -/

/-- A line of the first section. -/
inductive Declaration where
  /-- the end of the section -/
  | divider
  | options (names : List Text)
  | inclusive (states : List Text)
  | exclusive (states : List Text)
  | tokens (names : List Text)
  | definition (name fragment : Text)
  deriving DecidableEq, Repr, Inhabited

/-- A definition of nothing. -/
def noPattern (name : Text) : Error :=
  .other (Text.ofString "definition " ++ name.quoted ++ " has no pattern")

/-- Reads a declaration. A line that starts with no keyword is a definition. -/
def Declaration.parse (line : Text) : Except Error Declaration :=
  match line.words with
  | [] => .error (noPattern [])
  | word :: rest =>
    if word = Text.ofString "%%" then .ok .divider
    else if word = Text.ofString "%option" then .ok (.options rest)
    else if word = Text.ofString "%s" then .ok (.inclusive rest)
    else if word = Text.ofString "%x" then .ok (.exclusive rest)
    else if word = Text.ofString "%token" then .ok (.tokens rest)
    else if rest.isEmpty then .error (noPattern word)
    else .ok (.definition word (Text.trim (line.drop word.length)))

/-- Declares states of one class. -/
def declareAll (c : StateClass) (names : List Text) (lx : DirectedLexer) : DirectedLexer :=
  names.foldl (fun lx name => lx.declare name c) lx

/-- Switches options on, up to the first that does not exist. -/
def setAll : List Text → DirectedLexer → Except Error DirectedLexer
  | [], lx => .ok lx
  | name :: names, lx =>
    match lx.setOption name true with
    | .error e => .error e
    | .ok lx => setAll names lx

/-- Makes the calls that a declaration stands for. -/
def Declaration.apply (d : Declaration) (lx : DirectedLexer) : Except Error DirectedLexer :=
  match d with
  | .divider => .ok lx
  | .options names => setAll names lx
  | .inclusive states => .ok (declareAll .inclusive states lx)
  | .exclusive states => .ok (declareAll .exclusive states lx)
  | .tokens names => .ok (names.foldl (fun lx name => (lx.declareToken name).2) lx)
  | .definition name fragment => lx.define name fragment

/-! ## Clauses -/

/-- A line of the second section. -/
inductive Clause where
  | rule (spec : Text) (action : List Directive)
  /-- what to do where no rule matches -/
  | default (action : List Directive)
  deriving DecidableEq, Repr, Inhabited

/-- Cuts a line in front of the first blank or tab outside quotes and classes. A backslash escapes
the symbol behind it. -/
def splitAt (quoted inClass : Bool) : Text → Text × Text
  | [] => ([], [])
  | s :: rest =>
    if s.is '\\' then
      match rest with
      | [] => ([s], [])
      | escaped :: rest =>
        let (spec, rest) := splitAt quoted inClass rest
        (s :: escaped :: spec, rest)
    else if (s.is ' ' || s.is '\t') && !quoted && !inClass then ([], s :: rest)
    else
      let quoted := if s.is '"' && !inClass then !quoted else quoted
      let inClass :=
        if s.is '[' && !quoted then true else if s.is ']' && !quoted then false else inClass
      let (spec, rest) := splitAt quoted inClass rest
      (s :: spec, rest)

/-- The specification of a rule, and the words of its action. -/
def splitRule (line : Text) : Text × Text :=
  let (spec, rest) := splitAt false false line
  (spec, Text.trim rest)

/-- Reads a clause. Every line that starts with `%default` is a default, whatever follows in its
first word. -/
def Clause.parse (line : Text) : Except Error Clause :=
  if line.startsWith "%default" then
    (Directive.parse line.words.tail).map .default
  else
    let (spec, rest) := splitRule line
    (Directive.parse rest.words).map (.rule spec)

/-- Makes the calls that a clause stands for. -/
def Clause.apply (c : Clause) (lx : DirectedLexer) : Except Error DirectedLexer :=
  match c with
  | .rule spec action =>
    match lx.addRule spec (some action) with
    | (.ok (), lx) => .ok lx
    | (.error e, _) => .error e
  | .default action => .ok (lx.addDefaultRule (some action))

end Munch.RuleFile
