import Munch.Session.Basic

/-!
# Running a session

`perform` makes one call and reports it. The actions of the lexer's rules are run by a `Host` that
performs calls in turn; an action may attach a source and scan it, so hosts are stacked: `host
depth` runs actions that are nested at most `depth` deep.

`run` makes the calls of a session on a new lexer.
-/

namespace Munch.Session

variable {υ : Type}

/-- The lexer of a session. -/
abbrev Scanner (υ : Type) := Lexer (Registered υ) Handler

/-- What actions and handlers of a session do. -/
abbrev Actor (υ : Type) := Host (Registered υ) Handler υ (World υ)

/-- The number of steps after which a scan is given up. -/
def stepLimit : Nat := 1000000000

/-- The number of scans that may run inside each other's actions. -/
def depthLimit : Nat := 1000000000

/-! ## The world -/

namespace World

/-- Logs an event. -/
def log (w : World υ) (e : Event υ) : World υ := { w with events := e :: w.events }

/-- The number of calls of an action. -/
def countOf (w : World υ) (id : Nat) : Nat := (w.counts.lookup id).getD 0

/-- Counts a call of an action. -/
def count (w : World υ) (id : Nat) : World υ :=
  { w with counts := (id, w.countOf id + 1) :: w.counts.filter (·.1 != id) }

/-- Where the world keeps a tokenizer. -/
def place (id : Nat) : Place υ (World υ) where
  get w := ((w.feeds[id]?).getD {}).tokenizer
  set t w := { w with feeds := w.feeds.modify id fun f => { f with tokenizer := t } }

/-- Registers an action. -/
def register (w : World υ) : Action υ → Option (Registered υ) × World υ
  | .none => (none, w)
  | .script label body => (some ⟨w.actions, label, body⟩, { w with actions := w.actions + 1 })

end World

/-- Hands a token to a handler. -/
def deliver (handler : Handler) (t : Token υ) (lx : Scanner υ) (w : World υ) :
    Scanner υ × World υ :=
  match handler with
  | .log => (lx, w.log (.token t))
  | .queue id =>
    let p := World.place id
    (lx, p.set ((p.get w).push t) w)

/-- Reports the error of a tokenizer. -/
def reportError (id : Nat) (e : Error) (lx : Scanner υ) (w : World υ) : Scanner υ × World υ :=
  if ((w.feeds[id]?).getD {}).logs then (lx, w.log (.handled e))
  else (lx.note .error (.reported e), w)

/-! ## Calls -/

/-- Where the lexer is. -/
def statusOf (lx : Scanner υ) : Status :=
  ⟨lx.phase, lx.context.state, lx.context.line, lx.context.text, lx.context.input⟩

/-- The answer of a call that changes the lexer or fails. -/
def changed (lx : Scanner υ) : Except Error (Scanner υ) → Answer υ × Scanner υ
  | .ok lx => (.done, lx)
  | .error e => (.error e, lx)

/-- The answer of a scan. -/
def scanned : Lexer.Outcome → Answer υ
  | .finished => .done
  | .failed e => .error e
  | .broken => .broken
  | .unfinished => .broken

/-- Steps at most `n` times, until the scan is over. Returns the flags of the steps. -/
def stepMany (h : Actor υ) : (n : Nat) → Scanner υ → World υ →
    Answer υ × List Bool × Scanner υ × World υ
  | 0, lx, w => (.done, [], lx, w)
  | n + 1, lx, w =>
    match lx.step h w with
    | (.more, lx, w) =>
      let (answer, flags, rest) := stepMany h n lx w
      (answer, true :: flags, rest)
    | (.done, lx, w) => (.done, [false], lx, w)
    | (.failed e, lx, w) => (.error e, [false], lx, w)
    | (.broken, lx, w) => (.broken, [], lx, w)

/-- Pulls `n` tokens out of the tokenizer in use. -/
def pullMany (h : Actor υ) : (n : Nat) → List (Option (Token υ)) → Scanner υ → World υ →
    Answer υ × Scanner υ × World υ
  | 0, pulled, lx, w => (.tokens pulled.reverse, lx, w)
  | n + 1, pulled, lx, w =>
    match w.feeds.length with
    | 0 => (.broken, lx, w)
    | id + 1 =>
      match Tokenizer.next h (World.place id) (reportError id) stepLimit lx w with
      | (.token t, lx, w) => pullMany h n (some t :: pulled) lx w
      | (.ended, lx, w) => pullMany h n (none :: pulled) lx w
      | (.broken, lx, w) => (.broken, lx, w)
      | (.unfinished, lx, w) => (.broken, lx, w)

/-- The error that interrupts a scan within a limit. -/
def interruption (limit : Limit) (w : World υ) : Option Error :=
  match limit with
  | .canceled => some .canceled
  | .expired => some .deadlineExceeded
  | .open => if w.canceled then some .canceled else none

/-- Makes a call; events go into the world. Returns the answer and, for steps, their flags. -/
def make (h : Actor υ) (c : Call υ) (lx : Scanner υ) (w : World υ) :
    Answer υ × Option (List Bool) × Scanner υ × World υ :=
  let only (answer : Answer υ) : Answer υ × Option (List Bool) × Scanner υ × World υ :=
    (answer, none, lx, w)
  let become (lx : Scanner υ) : Answer υ × Option (List Bool) × Scanner υ × World υ :=
    (.done, none, lx, w)
  let attempt (r : Except Error (Scanner υ)) :
    Answer υ × Option (List Bool) × Scanner υ × World υ :=
    let (answer, lx) := changed lx r
    (answer, none, lx, w)
  match c with
  | .define name fragment => attempt (lx.define name fragment)
  | .declare name cls => become (lx.declare name cls)
  | .isDeclared name => only (.bool (lx.states.isDeclared name))
  | .isExclusive name => only (.bool (lx.states.isExclusive name))
  | .states => only (.texts lx.states.all)
  | .rule spec action =>
    let (action, w) := w.register action
    match lx.addRule spec action with
    | (.ok (), lx) => (.done, none, lx, w)
    | (.error e, lx) => (.error e, none, lx, w)
  | .defaultRule action =>
    let (action, w) := w.register action
    (.done, none, lx.addDefaultRule action, w)
  | .rules state => only (.texts (lx.patterns state))
  | .hasDefault state => only (.bool (lx.hasDefault state))
  | .declareToken name =>
    let (tag, lx) := lx.declareToken name
    (.tag (some tag), none, lx, w)
  | .token name => only (.tag (lx.tokens.find? name))
  | .tokenName type => only (.text (lx.tokens.nameOf type))
  | .tokenHandler on => become { lx with handler := if on then some .log else none }
  | .setOption name on => attempt (lx.setOption name on)
  | .option name => only (match lx.option name with
    | .ok on => .bool on
    | .error e => .error e)
  | .warnings => only (.texts (lx.warnings.map Warning.message))
  | .value key => only (match Lexer.valueOf lx.context key with
    | .ok v => .value v
    | .error e => .error e)
  | .status => only .done
  | .begin state => attempt (lx.begin state)
  | .attach input => attempt (lx.attach input)
  | .lex =>
    let (outcome, lx, w) := lx.lex h stepLimit w
    (scanned outcome, none, lx, w)
  | .lexWithin limit =>
    let before := w.canceled
    let (outcome, lx, w) :=
      lx.lexUnless h (interruption limit) stepLimit { w with canceled := false }
    (scanned outcome, none, lx, { w with canceled := before })
  | .step n =>
    let (answer, flags, lx, w) := stepMany h (max n 1) lx w
    (answer, some flags, lx, w)
  | .tokenizer input =>
    match lx.attach input with
    | .error e => only (.error e)
    | .ok lx =>
      (.done, none, { lx with handler := some (.queue w.feeds.length) },
        { w with feeds := w.feeds ++ [{}] })
  | .errorHandler on =>
    match w.feeds.length with
    | 0 => only .broken
    | id + 1 =>
      (.done, none, lx, { w with feeds := w.feeds.modify id fun f => { f with logs := on } })
  | .nextToken n =>
    let (answer, lx, w) := pullMany h (max n 1) [] lx w
    (answer, none, lx, w)

/-- Does the report of a call say where the lexer is after it? -/
def Call.hasStatus : Call υ → Bool
  | .status | .begin _ | .attach _ | .lex | .lexWithin _ | .step _ | .tokenizer _ | .nextToken _ =>
    true
  | _ => false

/-- Makes a call and reports it. The events of the call are in its report. -/
def perform (h : Actor υ) (c : Call υ) (lx : Scanner υ) (w : World υ) :
    Report υ × Scanner υ × World υ :=
  let outer := w.events
  let (answer, more, lx, w) := make h c lx { w with events := [] }
  let events := w.events.reverse
  let report : Report υ := match answer with
    | .broken => .mk c .broken none none events
    | answer => .mk c answer more (if c.hasStatus then some (statusOf lx) else none) events
  (report, lx, { w with events := outer })

/-! ## Actions -/

/-- An action in progress. -/
structure Progress (υ : Type) where
  reply : Reply υ := {}
  /-- has the action returned? -/
  returned : Bool := false
  lexer : Scanner υ
  world : World υ

/-- A number of eight bits with a sign. -/
def word8 (n : Int) : Int := n.bmod 256

mutual

/-- Follows an instruction in the `count`th call of an action. -/
def follow (h : Actor υ) (c : Context) (count : Nat) : Instruction υ → Progress υ → Progress υ
  | .skip, p => { p with reply := { signal := .skip } }
  | .proceed, p => { p with reply := {} }
  | .emit name, p => { p with reply := { token := name } }
  | .emitValue name value, p => { p with reply := { token := name, value := some value } }
  | .reply signal token, p =>
    { p with reply := { signal := .ofInt (word8 signal), token := token } }
  | .fail reason, p => { p with reply := { signal := .fail, error := reason.map .other } }
  | .begin state, p =>
    match p.lexer.begin state with
    | .ok lx => { p with lexer := lx }
    | .error e => { p with reply := { signal := .fail, error := some e }, returned := true }
  | .tryBegin state, p =>
    match p.lexer.begin state with
    | .ok lx => { p with lexer := lx, world := p.world.log (.triedBegin none) }
    | .error e => { p with world := p.world.log (.triedBegin (some e)) }
  | .value key, p => { p with world := p.world.log (.value (Lexer.valueOf c key)) }
  | .context, p => { p with world := p.world.log (.context c) }
  | .call call, p =>
    let (report, lx, w) := perform h call p.lexer p.world
    { p with lexer := lx, world := w.log (.called report) }
  | .ifText text body, p => if c.text = text then followAll h c count body p else p
  | .ifCall n body, p => if n = count then followAll h c count body p else p
  | .cancel, p => { p with world := { p.world with canceled := true } }

/-- Follows instructions until the action returns. -/
def followAll (h : Actor υ) (c : Context) (count : Nat) :
    List (Instruction υ) → Progress υ → Progress υ
  | [], p => p
  | i :: is, p => if p.returned then p else followAll h c count is (follow h c count i p)

end

/-- Runs an action; the calls it makes are served by `h`. -/
def act (h : Actor υ) (a : Registered υ) (c : Context) (lx : Scanner υ) (w : World υ) :
    Reply υ × Scanner υ × World υ :=
  let w := w.count a.id
  let w := match a.label with
    | some label => w.log (.matched label c)
    | none => w
  let p := followAll h c (w.countOf a.id) a.body { lexer := lx, world := w }
  (p.reply, p.lexer, p.world)

/-- Runs actions that are nested at most `depth` deep; deeper ones do nothing. -/
def host : (depth : Nat) → Actor υ
  | 0 => { act := fun _ _ lx w => ({}, lx, w), deliver := deliver }
  | depth + 1 => { act := fun a c lx w => act (host depth) a c lx w, deliver := deliver }

/-- Makes calls one after the other. Each report comes with the notices of its call. -/
def runFrom : List (Call υ) → Scanner υ → World υ → List (Report υ × List Entry)
  | [], _, _ => []
  | c :: cs, lx, w =>
    let (report, lx, w) := perform (host depthLimit) c lx w
    (report, lx.journal.reverse) :: runFrom cs { lx with journal := [] } w

/-- Makes the calls of a session on a new lexer, whose tokens are logged. -/
def run (calls : List (Call υ)) : List (Report υ × List Entry) :=
  runFrom calls { handler := some .log } {}

end Munch.Session
