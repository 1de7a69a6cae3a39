import Munch.Lexer.Basic

/-!
# Scanning

A step finds the longest match in the active state, consumes it and runs the action of the rule. If
no rule matches, the default action of the state takes a single rune. Otherwise the scan fails.

What actions and token handlers do is given by a `Host`: they get the lexer itself, and a world of
their own of type `ω`, and may change both.

* `Lexer.step` dispatches one match.
* `Lexer.lex` steps until the scan has ended, or is interrupted between two matches.
-/

namespace Munch

/-! ## Actions -/

/-- How an action says that it has finished. -/
inductive Signal where
  /-- go on, and emit a token if one is set -/
  | proceed
  /-- go on without a token -/
  | skip
  /-- end the scan with an error -/
  | fail
  /-- a number without a meaning, which is taken for `proceed` -/
  | unknown (n : Int)
  deriving DecidableEq, Repr, Inhabited

/-- The name of a signal. -/
def Signal.name : Signal → Text
  | .proceed => "continue"
  | .skip => "skip"
  | .fail => "fail"
  | .unknown _ => "<signal>"

/-- The signal of a number. -/
def Signal.ofInt (n : Int) : Signal :=
  if n = 0 then .proceed else if n = 1 then .skip else if n = 2 then .fail else .unknown n

/-- What an action returns. -/
structure Reply (υ : Type) where
  signal : Signal := .proceed
  /-- the name of a token to emit, empty for none -/
  token : Text := []
  value : Option υ := none
  error : Option Error := none
  deriving Repr, Inhabited

/-- What actions and token handlers do. -/
structure Host (α η υ ω : Type) where
  act : α → Context → Lexer α η → ω → Reply υ × Lexer α η × ω
  deliver : η → Token υ → Lexer α η → ω → Lexer α η × ω

/-! ## Finding a match -/

/-- What looking for a match comes to. -/
inductive Search (α : Type) where
  | found (r : Rule α) (length : Nat)
  | nothing
  | failed (e : Error)
  /-- the matcher broke down -/
  | broken
  deriving Repr, Inhabited

/-- The search that found a rule, or none. -/
def Search.ofHit {α : Type} : Option (Rule α × Nat) → Search α
  | some (r, length) => .found r length
  | none => .nothing

namespace Lexer

variable {α η υ ω : Type}

/-- Takes over a window that was read further, and notes if its source said that it ended. -/
def see (lx : Lexer α η) (before after : Window) : Lexer α η :=
  let lx := { lx with window := some after }
  if before.ending.isNone && after.ending == some .announced then
    lx.note .debug (.inputEnded after.seen)
  else lx

/-- Looks for a match with the programs of the active state. -/
def searchRunes (lx : Lexer α η) (w : Window) : Search α × Window × Lexer α η :=
  let (hit, after, runes) := lx.runes.longest lx.rules lx.context.state w
  (.ofHit hit, after, { lx with runes := runes }.see w after)

/-- The input as bytes; it is read completely the first time. -/
def bufferBytes (lx : Lexer α η) (w : Window) : Bytes.ByteText × Window × Lexer α η :=
  match lx.bytes.text with
  | some text => (text, w, lx)
  | none =>
    let after := w.drain
    let text : Bytes.ByteText :=
      { bytes := (Bytes.encode after.ahead).toArray, runePos := after.offset }
    let lx := (lx.see w after).note .debug (.inputBuffered text.bytes.size)
    (text, after, { lx with bytes := { lx.bytes with text := some text, scanners := [] } })

/-- Keeps compiled rules for a state, together with the scanners given. -/
def keepRules (state : Text) (c : ByteRules α) (scanners : List (Text × Bytes.ByteScanner))
    (lx : Lexer α η) : Except (Search α) (ByteRules α) × Lexer α η :=
  (.ok c, { lx with bytes := { lx.bytes with
    compiled := RuleTable.update state c lx.bytes.compiled, scanners := scanners } })

/-- Keeps nothing for a state, since its patterns are bad. -/
def refuseRules (state : Text) (e : Error) (lx : Lexer α η) :
    Except (Search α) (ByteRules α) × Lexer α η :=
  (.error (.failed (.badPattern ([.char '<'] ++ state ++ [.char '>']) e)),
    lx.note .error (.notCompiled e))

/-- Compiles the rules of a state. Only what compiles is kept, and a scanner for what was there
before is dropped. -/
def compileRules (lx : Lexer α η) (state : Text) : Except (Search α) (ByteRules α) × Lexer α η :=
  let rules := lx.rules.rulesFor state
  let patterns := rules.map (·.bytePattern)
  let lx := lx.note .debug (.compiling state rules.length)
  let others := lx.bytes.scanners.filter (·.1 != state)
  if rules.isEmpty then lx.keepRules state ⟨patterns, rules, []⟩ others
  else
    match Bytes.compile patterns with
    | .programs ps => lx.keepRules state ⟨patterns, rules, ps⟩ others
    | .unreadable => lx.refuseRules state .unreadableBytes
    | .matchesEmpty => lx.refuseRules state .matchesEmpty
    | .broken => (.error .broken, lx)

/-- The compiled rules of a state. What was compiled before is taken if the patterns are still the
same, with the rules as they are now. -/
def byteRules (lx : Lexer α η) (state : Text) : Except (Search α) (ByteRules α) × Lexer α η :=
  let rules := lx.rules.rulesFor state
  match lx.bytes.compiled.lookup state with
  | some c =>
    if c.fingerprint = rules.map (·.bytePattern) then
      lx.keepRules state { c with rules := rules } lx.bytes.scanners
    else lx.compileRules state
  | none => lx.compileRules state

/-- What is at work when a match is looked for: compiled rules, the text at the cursor, and a
scanner. -/
structure ByteSetup (α : Type) where
  rules : ByteRules α
  text : Bytes.ByteText
  scanner : Bytes.ByteScanner
  deriving Repr, Inhabited

/-- The rule of a match at the cursor, and the number of runes in the bytes it takes. -/
def ByteSetup.read (u : ByteSetup α) (hit : Option Hit) : Option (Rule α × Nat) :=
  hit.bind fun h =>
    let taken := (u.text.bytes.extract u.text.bytePos (u.text.bytePos + h.length)).toList
    u.rules.rules[h.rule]?.map (·, Bytes.runeCount taken)

/-- The longest match at the cursor. -/
def ByteSetup.longest (u : ByteSetup α) : Option (Rule α × Nat) :=
  u.read (u.scanner.longest u.text.bytePos)

/-- The scanner of a state on the text; it is made if there is none, and has no trail then. -/
def byteScanner (lx : Lexer α η) (state : Text) (c : ByteRules α) (text : Bytes.ByteText) :
    Bytes.ByteScanner × Lexer α η :=
  match lx.bytes.scanners.lookup state with
  | some s => (s, lx)
  | none =>
    let s : Bytes.ByteScanner := ⟨c.programs, text.bytes⟩
    (s, { lx with bytes := { lx.bytes with
      scanners := RuleTable.update state s lx.bytes.scanners
      trails := RuleTable.update state {} lx.bytes.trails } })

/-- Sets up the search for a match with the patterns over bytes of the active state. The search is
over if the patterns are bad, if there are none, or if there is no text. -/
def byteSetup (lx : Lexer α η) (w : Window) :
    Except (Search α) (ByteSetup α) × Window × Lexer α η :=
  let state := lx.context.state
  let (text, w, lx) := lx.bufferBytes w
  match lx.byteRules state with
  | (.error s, lx) => (.error s, w, lx)
  | (.ok c, lx) =>
    if c.rules.isEmpty then (.error .nothing, w, lx)
    else
      let text := text.moveTo w.offset
      let lx := { lx with bytes := { lx.bytes with text := some text } }
      if text.bytes.size ≤ text.bytePos then (.error .nothing, w, lx)
      else
        let (scanner, lx) := lx.byteScanner state c text
        (.ok ⟨c, text, scanner⟩, w, lx)

/-- Lets the scanner of the active state look for a match, after its earlier attempts. -/
def attempt (lx : Lexer α η) (u : ByteSetup α) : Option (Rule α × Nat) × Lexer α η :=
  let state := lx.context.state
  let (hit, trail) := u.scanner.resume ((lx.bytes.trails.lookup state).getD {}) u.text.bytePos
  (u.read hit,
    { lx with bytes := { lx.bytes with trails := RuleTable.update state trail lx.bytes.trails } })

/-- Looks for a match with the patterns over bytes of the active state. -/
def searchBytes (lx : Lexer α η) (w : Window) : Search α × Window × Lexer α η :=
  match lx.byteSetup w with
  | (.error s, w, lx) => (s, w, lx)
  | (.ok u, w, lx) =>
    let (hit, lx) := lx.attempt u
    (.ofHit hit, w, lx)

/-- Looks for a match with the matcher that the options ask for. -/
def search (lx : Lexer α η) (w : Window) : Search α × Window × Lexer α η :=
  if lx.options.dfa then lx.searchBytes w else lx.searchRunes w

/-! ## Dispatching -/

/-- What a step comes to. -/
inductive Progress where
  /-- a match was dispatched -/
  | more
  /-- the input is consumed -/
  | done
  | failed (e : Error)
  /-- the matcher broke down -/
  | broken
  deriving DecidableEq, Repr, Inhabited

/-- Ends the scan with an error. -/
def fail (lx : Lexer α η) (e : Error) : Lexer α η :=
  { lx.note .error (.failed e) with phase := .failed e }

/-- What the reply of an action comes to. -/
inductive Effect (η υ : Type) where
  | nothing
  | failed (e : Error)
  /-- a token for the handler -/
  | token (handler : η) (t : Token υ)

/-- What follows from the reply to the match of the context `c`. -/
def effect (c : Context) (reply : Reply υ) (lx : Lexer α η) : Effect η υ :=
  match reply.signal with
  | .skip => .nothing
  | .fail => .failed (.actionFailed c.line c.text (reply.error.getD .noReason))
  | _ =>
    if reply.token.isEmpty then .nothing
    else
      match lx.tokens.find? reply.token with
      | none => .failed (.undeclaredToken reply.token c.line)
      | some tag =>
        match lx.handler with
        | none => .nothing
        | some handler => .token handler ⟨tag, c.text, reply.value, c.line, c.span⟩

/-- Consumes `n` runes: the window behind them, and the context of the match. -/
def consumed (n : Nat) (w : Window) (lx : Lexer α η) : Lexer α η :=
  let (runes, after) := w.consume n
  let text := Text.ofRunes runes
  let c : Context := { lx.context with
    text := text
    span := ⟨w.offset, w.offset + n⟩
    line := lx.context.line + text.newlines }
  { lx with window := some after, context := c }.remark (.matched c.line c.state text)

/-- Runs an action on the match of the context; no action drops it. -/
def runAction (h : Host α η υ ω) (action : Option α) (lx : Lexer α η) (world : ω) :
    Option Error × Lexer α η × ω :=
  match action with
  | none => (none, lx, world)
  | some a =>
    let c := lx.context
    let (reply, lx, world) := h.act a c lx world
    match lx.effect c reply with
    | .nothing => (none, lx, world)
    | .failed e => (some e, lx, world)
    | .token handler t =>
      let (lx, world) := h.deliver handler t lx world
      (none, lx, world)

/-- Ends the step of a dispatch: with an error, or in the phase that the action left. -/
def concluded (failure : Option Error) (lx : Lexer α η) : Progress × Lexer α η :=
  match failure with
  | some e => (.failed e, lx.fail e)
  | none => (.more, if lx.phase = .dispatching then { lx with phase := .matching } else lx)

/-- Dispatches a match of `n` runes. -/
def dispatch (h : Host α η υ ω) (action : Option α) (n : Nat) (w : Window) (lx : Lexer α η)
    (world : ω) : Progress × Lexer α η × ω :=
  let lx := { lx with phase := .dispatching }
  if !w.keeps n then (.broken, lx, world)
  else
    let (failure, lx, world) := runAction h action (lx.consumed n w) world
    let (progress, lx) := lx.concluded failure
    (progress, lx, world)

/-- The newline made visible in the runes shown with a mismatch. -/
def visible (rs : List Rune) : Text :=
  (Text.ofRunes rs).flatMap fun s => if s.is '\n' then [.char '\\', .char 'n'] else [s]

/-- The error at a place where no rule matches. -/
def mismatch (lx : Lexer α η) (runes : List Rune) : Error :=
  .noMatch ⟨lx.context.line, lx.context.state, runes.headD 0, visible runes⟩

/-- The error for a source that cannot be read. -/
def readError (message : Text) : Error := .unreadable (.other message)

/-- What takes a match: a rule, or the default action of the state. -/
inductive Taker (α : Type) where
  | rule (r : Rule α)
  | default (action : Option α)
  deriving Repr, Inhabited

/-- The action to run. -/
def Taker.action : Taker α → Option α
  | .rule r => r.action
  | .default action => action

/-- What a step is about to do. -/
inductive Aim (α : Type) where
  /-- to dispatch the first `n` runes of the window -/
  | take (t : Taker α) (n : Nat) (w : Window)
  /-- nothing more -/
  | stop (p : Progress)
  deriving Repr, Inhabited

/-- Stops with an error. -/
def refuse (lx : Lexer α η) (e : Error) : Aim α × Lexer α η := (.stop (.failed e), lx.fail e)

/-- What is to be done after a search in the state `state`, which left the window `w`. A match
without runes counts for none. -/
def decideOn (state : Text) (found : Search α) (w : Window) (lx : Lexer α η) : Aim α × Lexer α η :=
  match found with
  | .failed e => lx.refuse e
  | .broken => (.stop .broken, lx)
  | found =>
    match w.failure? with
    | some message => lx.refuse (readError message)
    | none =>
      match found with
      | .found r (n + 1) => (.take (.rule r) (n + 1) w, lx)
      | _ =>
        match lx.rules.defaultFor state with
        | some action => (.take (.default action) 1 w, lx)
        | none =>
          let (runes, after) := w.lookahead 16
          let lx := lx.see w after
          lx.refuse (lx.mismatch runes)

/-- Looks for what is to be done in a scan that has begun. -/
def aimIn (w : Window) (lx : Lexer α η) : Aim α × Lexer α η :=
  let (isOver, peeked) := w.exhausted
  let lx := lx.see w peeked
  if isOver then
    match peeked.failure? with
    | some message => lx.refuse (readError message)
    | none => (.stop .done, { lx with phase := .exhausted }.remark (.exhausted lx.context.line))
  else
    let (found, after, next) := lx.search peeked
    next.decideOn lx.context.state found after

/-- Looks for what is to be done. -/
def aim (lx : Lexer α η) : Aim α × Lexer α η :=
  match lx.phase, lx.window with
  | .exhausted, _ => (.stop .done, lx)
  | .failed e, _ => (.stop (.failed e), lx)
  | .dispatching, _ => (.stop (.failed .reentrant), lx)
  | _, none => (.stop (.failed (.notASource "<nil>")), lx)
  | _, some w => aimIn w { lx with phase := .matching }

/-- Dispatches a single match. -/
def step (h : Host α η υ ω) (lx : Lexer α η) (world : ω) : Progress × Lexer α η × ω :=
  match lx.aim with
  | (.take t n w, lx) => dispatch h t.action n w lx world
  | (.stop p, lx) => (p, lx, world)

/-! ## Whole scans -/

/-- What a scan comes to. -/
inductive Outcome where
  | finished
  | failed (e : Error)
  /-- the matcher broke down -/
  | broken
  /-- there is more to do than the limit allows -/
  | unfinished
  deriving DecidableEq, Repr, Inhabited

/-- Has the scan come to its end? -/
def ended (lx : Lexer α η) : Bool :=
  match lx.phase with
  | .exhausted => true
  | .failed _ => true
  | _ => false

/-- Scans until the input is consumed or the scan fails, with at most `limit` steps. Between two
matches the world may interrupt the scan with an error. -/
def lexUnless (h : Host α η υ ω) (interrupted : ω → Option Error) :
    (limit : Nat) → Lexer α η → ω → Outcome × Lexer α η × ω
  | 0, lx, world => (.unfinished, lx, world)
  | limit + 1, lx, world =>
    match (if lx.ended then none else interrupted world) with
    | some e => (.failed e, lx.fail e, world)
    | none =>
      match lx.step h world with
      | (.more, lx, world) => lexUnless h interrupted limit lx world
      | (.done, lx, world) => (.finished, lx, world)
      | (.failed e, lx, world) => (.failed e, lx, world)
      | (.broken, lx, world) => (.broken, lx, world)

/-- Scans until the input is consumed or the scan fails, with at most `limit` steps. -/
def lex (h : Host α η υ ω) (limit : Nat) (lx : Lexer α η) (world : ω) : Outcome × Lexer α η × ω :=
  lexUnless h (fun _ => none) limit lx world

end Lexer

end Munch
