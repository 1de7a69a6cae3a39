import Munch.Bytes.Matcher
import Munch.Context
import Munch.Definitions
import Munch.Notice
import Munch.Options
import Munch.Pattern.Parser
import Munch.Rule.Literal
import Munch.Rule.Spec
import Munch.Rule.Table
import Munch.Tokens
import Munch.Window

/-!
# The lexer: state and registration

A `Lexer α η` holds definitions, states, rules with actions of type `α`, tokens, options, a token
handler of type `η`, and the scan in progress. Actions and handlers are data; the scan is given what
they do.

Registration: `define`, `declare`, `addRule`, `addDefaultRule`, `declareToken`, `setOption`.
-/

namespace Munch

/-- The phases of a scan. -/
inductive Phase where
  /-- no match was looked for since the source was attached -/
  | idle
  /-- between two matches -/
  | matching
  /-- an action is running -/
  | dispatching
  /-- the input is consumed -/
  | exhausted
  /-- the scan ended with an error -/
  | failed (e : Error)
  deriving DecidableEq, Repr, Inhabited

/-- The name of a phase. -/
def Phase.name : Phase → Text
  | .idle => "idle"
  | .matching => "matching"
  | .dispatching => "dispatching"
  | .exhausted => "exhausted"
  | .failed _ => "failed"

/-- The names of the phases in the order of their numbers. -/
def Phase.names : List Text := ["idle", "matching", "dispatching", "exhausted", "failed"]

/-- The name of the phase with a number; a number without a phase has a name too. -/
def Phase.nameAt (n : Int) : Text :=
  match (if n < 0 then none else Phase.names[n.toNat]?) with
  | some name => name
  | none => "<phase>"

/-- The rules of a state, with the programs that their patterns over bytes were compiled to. The
patterns themselves are the fingerprint by which a change is noticed. -/
structure ByteRules (α : Type) where
  fingerprint : List Text
  rules : List (Rule α)
  programs : List Program
  deriving Repr, Inhabited

/-- What the matcher for bytes keeps: compiled rules by state, the input once it has been read, and
the scanners by state that are at work on it, with the trails of their attempts. -/
structure ByteMatcher (α : Type) where
  compiled : List (Text × ByteRules α) := []
  text : Option Bytes.ByteText := none
  scanners : List (Text × Bytes.ByteScanner) := []
  trails : List (Text × Bytes.Trail) := []
  deriving Repr, Inhabited

/-- A lexer. -/
structure Lexer (α η : Type) where
  definitions : Definitions := {}
  states : States := States.default
  rules : RuleTable α := {}
  tokens : TokenTable := {}
  options : Options := {}
  /-- warnings, the oldest first -/
  warnings : List Warning := []
  handler : Option η := none
  context : Context := {}
  phase : Phase := .idle
  window : Option Window := none
  runes : RuneMatcher α := {}
  bytes : ByteMatcher α := {}
  /-- notices, the latest first -/
  journal : List Entry := []
  deriving Repr, Inhabited

namespace Lexer

variable {α η : Type}

/-! ## Notices -/

/-- Writes a notice down. -/
def note (lx : Lexer α η) (level : Level) (n : Notice) : Lexer α η :=
  { lx with journal := ⟨level, n⟩ :: lx.journal }

/-- Writes a notice down at level debug, or info if option `verbose` is on. -/
def remark (lx : Lexer α η) (n : Notice) : Lexer α η :=
  lx.note (if lx.options.verbose then .info else .debug) n

/-- Adds a warning. -/
def warn (lx : Lexer α η) (w : Warning) : Lexer α η :=
  { lx with warnings := lx.warnings ++ [w] }.remark (.warned w)

/-! ## Registration -/

/-- Gives a name to a fragment of a pattern. -/
def define (lx : Lexer α η) (name fragment : Text) : Except Error (Lexer α η) :=
  match lx.definitions.define? name fragment with
  | none => .error (.redefined name)
  | some defs => .ok ({ lx with definitions := defs }.remark (.defined name fragment))

/-- Declares a state, or moves it to the other class. -/
def declare (lx : Lexer α η) (name : Text) (c : StateClass) : Lexer α η :=
  match lx.states.declare? name c with
  | none => lx.warn (.redeclared name (c = .exclusive))
  | some states => { lx with states := states }

/-- The states that a specification is for. -/
def targets (lx : Lexer α η) : Rule.Target → Except Error (List Text)
  | .unnamed => .ok lx.states.inclusive
  | .every => .ok lx.states.all
  | .named names =>
    match names.find? (fun s => !lx.states.isDeclared s) with
    | some s => .error (.undeclaredState s)
    | none => .ok names

/-- Warns of every reference in a pattern to a name that is not defined. -/
def warnReferences (lx : Lexer α η) (spec pattern : Text) : Lexer α η :=
  (references pattern).foldl
    (fun lx name =>
      match lx.definitions.find? name with
      | some _ => lx
      | none => lx.warn (.undefinedName spec name)) lx

/-- The rule that an expanded pattern stands for. -/
def compileRule (caseless : Bool) (pattern : Text) (action : Option α) : Except Error (Rule α) :=
  match Rule.groupLiterals "(?:" pattern with
  | none => .error .openQuote
  | some source =>
    match Regex.parse caseless source with
    | .error f => .error (.fault f)
    | .ok regex =>
      .ok {
        pattern := source
        bytePattern := (Rule.groupLiterals "(" pattern).getD []
        action := action
        program := regex.program }

/-- Binds a rule to a state. -/
def bind (lx : Lexer α η) (r : Rule α) (state : Text) : Lexer α η :=
  let again := lx.rules.has state r.pattern
  let lx := { lx with rules := lx.rules.put state r }
  if again then lx.remark (.replaced r.pattern state) else lx

/-- Registers a rule. Warnings are kept even if the rule turns out to be bad. -/
def addRule (lx : Lexer α η) (spec : Text) (action : Option α) : Except Error Unit × Lexer α η :=
  let (target, pattern) := Rule.splitSpec spec
  match lx.targets target with
  | .error e => (.error e, lx)
  | .ok states =>
    let expanded := lx.definitions.expand pattern
    let lx := lx.warnReferences spec expanded
    match compileRule lx.options.caseless expanded action with
    | .error e => (.error (.badPattern spec e), lx)
    | .ok r =>
      (.ok (), (states.foldl (fun lx s => lx.bind r s) lx).remark (.bound r.pattern states))

/-- Gives every inclusive state a default action. -/
def addDefaultRule (lx : Lexer α η) (action : Option α) : Lexer α η :=
  { lx with rules := lx.states.inclusive.foldl (fun t s => t.putDefault s action) lx.rules }

/-- The patterns of the rules of a state, by priority. -/
def patterns (lx : Lexer α η) (state : Text) : List Text :=
  (lx.rules.rulesFor state).map (·.pattern)

/-- Has the state a default action? -/
def hasDefault (lx : Lexer α η) (state : Text) : Bool := (lx.rules.defaultFor state).isSome

/-- Declares a token. -/
def declareToken (lx : Lexer α η) (name : Text) : TokenTag × Lexer α η :=
  let (tag, tokens) := lx.tokens.declare name
  (tag, { lx with tokens := tokens })

/-- Switches an option. -/
def setOption (lx : Lexer α η) (name : Text) (on : Bool) : Except Error (Lexer α η) :=
  match lx.options.set? name on with
  | none => .error (.unknownOption name)
  | some options => .ok { lx with options := options }

/-- The setting of an option. -/
def option (lx : Lexer α η) (name : Text) : Except Error Bool :=
  match lx.options.get? name with
  | none => .error (.unknownOption name)
  | some on => .ok on

/-! ## The scan's context -/

/-- A value of the context by name. -/
def valueOf (c : Context) (key : Text) : Except Error ContextValue :=
  match ContextKey.ofName? key with
  | none => .error (.unknownValue key)
  | some k => .ok (c.value k)

/-- Makes another state the active one. -/
def begin (lx : Lexer α η) (state : Text) : Except Error (Lexer α η) :=
  if !lx.states.isDeclared state then .error (.undeclaredState state)
  else if state = lx.context.state then .ok lx
  else
    let lx := lx.remark (.began lx.context.line lx.context.state state)
    .ok { lx with context := { lx.context with state := state } }

/-- What can be attached: a source, or something that is none. -/
inductive Input where
  | source (s : Source)
  | unusable (what : Text)
  deriving DecidableEq, Repr, Inhabited

/-- Starts a new scan with a source. -/
def attachSource (lx : Lexer α η) (s : Source) : Lexer α η :=
  let lx := if lx.phase = .matching ∨ lx.phase = .dispatching
    then lx.remark (.reattached lx.context.line) else lx
  { lx with
    window := some (.ofSource s)
    context := { input := s.name }
    phase := .idle
    bytes := { lx.bytes with text := none, scanners := [] } }

/-- Starts a new scan, if what is attached is a source. -/
def attach (lx : Lexer α η) : Input → Except Error (Lexer α η)
  | .unusable what => .error (.notASource what)
  | .source s => .ok (lx.attachSource s)

end Lexer

end Munch
