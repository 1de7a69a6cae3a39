import Munch.Tokenizer

/-!
# Sessions: calls on a lexer, written down as data

A `Call` is one call on a lexer. An action of a rule is written as a list of instructions, some of
which call the lexer again. Every call has a `Report`: its answer and the events that happened
during it.
-/

namespace Munch.Session

/-- What interrupts a scan. -/
inductive Limit where
  /-- it is canceled before it begins -/
  | canceled
  /-- its time is over before it begins -/
  | expired
  /-- instruction `cancel` cancels it -/
  | open
  deriving DecidableEq, Repr, Inhabited

mutual

/-- One call on a lexer. -/
inductive Call (υ : Type) where
  | define (name fragment : Text)
  | declare (name : Text) (c : StateClass)
  | isDeclared (name : Text)
  | isExclusive (name : Text)
  | states
  | rule (spec : Text) (action : Action υ)
  | defaultRule (action : Action υ)
  | rules (state : Text)
  | hasDefault (state : Text)
  | declareToken (name : Text)
  | token (name : Text)
  | tokenName (type : Int)
  | tokenHandler (on : Bool)
  | setOption (name : Text) (on : Bool)
  | option (name : Text)
  | warnings
  | value (key : Text)
  | status
  | begin (state : Text)
  | attach (input : Lexer.Input)
  | lex
  | lexWithin (limit : Limit)
  | step (n : Nat)
  | tokenizer (input : Lexer.Input)
  | errorHandler (on : Bool)
  | nextToken (n : Nat)

/-- The action of a rule. -/
inductive Action (υ : Type) where
  /-- no action: the match is dropped -/
  | none
  /-- logs the match under a label, if there is one, and follows instructions -/
  | script (label : Option Text) (body : List (Instruction υ))

/-- A step of a scripted action. The reply of the action is what the last of them left. -/
inductive Instruction (υ : Type) where
  | skip
  | proceed
  | emit (name : Text)
  | emitValue (name : Text) (value : υ)
  | reply (signal : Int) (token : Text)
  | fail (reason : Option Text)
  /-- begins a state; if it is not declared the action fails at once -/
  | begin (state : Text)
  | tryBegin (state : Text)
  | value (key : Text)
  | context
  | call (c : Call υ)
  /-- follows instructions if the text of the match is the one given -/
  | ifText (text : Text) (body : List (Instruction υ))
  /-- follows instructions in the `n`th call of this action -/
  | ifCall (n : Int) (body : List (Instruction υ))
  | cancel

end

instance {υ : Type} : Inhabited (Call υ) := ⟨.status⟩

instance {υ : Type} : Inhabited (Action υ) := ⟨.none⟩

instance {υ : Type} : Inhabited (Instruction υ) := ⟨.proceed⟩

/-- Where a lexer is after a call. -/
structure Status where
  phase : Phase
  state : Text
  line : Nat
  text : Text
  input : Option Text
  deriving Repr, Inhabited

/-- What a call answers. -/
inductive Answer (υ : Type) where
  | done
  | bool (b : Bool)
  | text (t : Text)
  | texts (ts : List Text)
  | tag (t : Option TokenTag)
  | value (v : ContextValue)
  /-- tokens of a tokenizer, `none` behind the last one -/
  | tokens (ts : List (Option (Token υ)))
  | error (e : Error)
  | broken

mutual

/-- The report of a call. -/
inductive Report (υ : Type) where
  | mk (call : Call υ) (answer : Answer υ) (more : Option (List Bool)) (status : Option Status)
      (events : List (Event υ))

/-- What happens during a call. -/
inductive Event (υ : Type) where
  | matched (label : Text) (c : Context)
  | token (t : Token υ)
  | handled (e : Error)
  | triedBegin (e : Option Error)
  | value (answer : Except Error ContextValue)
  | context (c : Context)
  | called (r : Report υ)

end

/-- A registered action, with a number of its own. -/
structure Registered (υ : Type) where
  id : Nat
  label : Option Text
  body : List (Instruction υ)

/-- The token handlers of a session. -/
inductive Handler where
  /-- logs tokens as events -/
  | log
  /-- puts tokens into the queue of a tokenizer -/
  | queue (id : Nat)
  deriving DecidableEq, Repr, Inhabited

/-- A tokenizer of a session; `logs` if errors are logged as events. -/
structure Feed (υ : Type) where
  tokenizer : Tokenizer υ := {}
  logs : Bool := false

/-- What a session keeps beside the lexer. -/
structure World (υ : Type) where
  /-- events of the call in progress, the latest first -/
  events : List (Event υ) := []
  /-- how often each action was called, by its number -/
  counts : List (Nat × Nat) := []
  /-- the number of actions registered -/
  actions : Nat := 0
  /-- all tokenizers; the last one is in use -/
  feeds : List (Feed υ) := []
  /-- is the scan in progress canceled? -/
  canceled : Bool := false

end Munch.Session
