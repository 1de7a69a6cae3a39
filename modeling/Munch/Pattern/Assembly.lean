import Munch.Pattern.Fault
import Munch.Pattern.Node

/-!
# Putting a pattern together

A pattern is read from left to right onto a stack of finished parts, open groups and bars. This
module holds the stack and the operations on it that do not look at the text of the pattern:

* `push` puts a part on the stack, melting literals that stand next to each other;
* `closeSequence` replaces the parts above the last bar or group by their sequence;
* `closeChoice` replaces those above the last group by a choice between them. Parts that start alike
  are factored (`abc|abd` becomes `ab[cd]`), and parts that take a single rune become one set.

Every part is checked against the limits on the way: a pattern may nest 1000 levels, and weigh as
much as fits into 128 megabytes of instructions.
-/

namespace Munch.Pattern

/-- The modes of reading that a pattern can switch. -/
structure Flags where
  fold : Bool := false
  oneLine : Bool := false
  dotNewline : Bool := false
  lazy : Bool := false
  deriving DecidableEq, Repr, Inhabited

/-- An entry of the stack. -/
inductive Item where
  | part (n : Node)
  | group (capturing : Bool) (outer : Flags)
  | bar
  deriving Repr, Inhabited

/-- The state of reading a pattern: the stack, top first, the modes, and the tally that decides when
the weight of the pattern has to be looked at. -/
structure Assembly where
  pattern : Text
  flags : Flags := {}
  stack : List Item := []
  /-- parts made so far, those taken from `spare` not counted -/
  made : Nat := 0
  /-- parts given back for another use -/
  spare : Nat := 0
  /-- ends of ranges, and literals, put on the stack so far -/
  ends : Nat := 0
  /-- product of all counts of repetitions so far -/
  counts : Nat := 1
  /-- are all parts weighed? -/
  weighing : Bool := false

/-- Reading a pattern: a state, and faults. -/
abbrev Build := StateT Assembly (Except Fault)

/-- The greatest nesting depth of a pattern. -/
def maxHeight : Nat := 1000

/-- The greatest weight of a pattern. -/
def maxWeight : Nat := 3355443

/-- The greatest number of range ends and literals of a pattern. -/
def maxEnds : Nat := 33554432

/-- Fails with a fault about the whole pattern. -/
def failWhole {α : Type} (cause : Cause) : Build α := do
  throw ⟨cause, (← get).pattern⟩

/-- Takes a part from the spare ones, or makes one. -/
def make : Build Unit :=
  modify fun a =>
    if a.spare = 0 then { a with made := a.made + 1 } else { a with spare := a.spare - 1 }

/-- Gives a part back. -/
def giveBack : Build Unit := modify fun a => { a with spare := a.spare + 1 }

/-! ## Limits -/

/-- The weight of an entry of the stack. -/
def Item.weight : Item → Nat
  | .part n => n.weight
  | _ => 1

/-- The product of the counts once the part `n` is made. -/
def countsWith (counts : Nat) : Node → Nat
  | .counted _ least most _ =>
    let times := max 1 (most.getD least)
    if times > maxWeight / counts then maxWeight else counts * times
  | _ => counts

/-- Weighs the part, but only once a pattern has so many parts and such counts that it may be too
heavy. From then on every part is weighed, those on the stack first. -/
def checkWeight (n : Node) : Build Unit := do
  let a ← get
  if a.weighing then
    if maxWeight < n.weight then failWhole .tooLarge
  else
    let counts := countsWith a.counts n
    set { a with counts := counts }
    if maxWeight / counts ≤ a.made then
      modify fun a => { a with weighing := true }
      if a.stack.any (fun item => maxWeight < item.weight) then failWhole .tooLarge
      if maxWeight < n.weight then failWhole .tooLarge

/-- Checks a new part against all limits. -/
def checkLimits (n : Node) : Build Unit := do
  if maxEnds < (← get).ends then failWhole .tooLarge
  checkWeight n
  if maxHeight < n.height then failWhole .tooDeep

/-! ## Pushing -/

/-- Melts the two topmost literals into one, if they fold alike. -/
def meltLiterals : Build Unit := do
  match (← get).stack with
  | .part (.literal f1 top) :: .part (.literal f2 below) :: rest =>
    if f1 = f2 then
      modify fun a => { a with stack := .part (.literal f2 (below ++ top)) :: rest }
      giveBack
  | _ => pure ()

/-- Melts the two topmost literals and puts the code point `p` in the place that gets free. Returns
whether it did. -/
def meltAndPush (fold : Bool) (p : Nat) : Build Bool := do
  match (← get).stack with
  | .part (.literal f1 top) :: .part (.literal f2 below) :: rest =>
    if f1 = f2 then
      modify fun a =>
        { a with stack := .part (.literal fold [p]) :: .part (.literal f2 (below ++ top)) :: rest }
      pure true
    else pure false
  | _ => pure false

/-- The number of range ends or literal code points of a part. -/
def endsOf : Node → Nat
  | .literal _ points => points.length
  | .set s => 2 * s.ranges.length
  | _ => 0

/-- The literal that a set of one code point, or of one letter in both cases, can be written as. -/
def literalOf? : Node → Option (Bool × Nat)
  | .set ⟨[(a, b)]⟩ =>
    if a = b then some (false, a)
    else if a + 1 = b ∧ Unicode.orbit a = [a, b] then some (true, a)
    else none
  | .set ⟨[(a, b), (c, d)]⟩ =>
    if a = b ∧ c = d ∧ Unicode.orbit a = [a, c] then some (true, a) else none
  | _ => none

/-- Puts an entry on the stack. -/
def put (item : Item) : Build Unit := modify fun a => { a with stack := item :: a.stack }

/-- Puts a part on the stack. -/
def push (n : Node) : Build Unit := do
  modify fun a => { a with ends := a.ends + endsOf n }
  match literalOf? n with
  | some (fold, p) =>
    unless ← meltAndPush fold p do
      put (.part (.literal fold [p]))
      checkLimits (.literal fold [p])
  | none =>
    meltLiterals
    put (.part n)
    checkLimits n

/-- Makes a part without parts of its own and puts it on the stack. -/
def pushNew (n : Node) : Build Unit := do
  make
  push n

/-- Puts an open group or a bar on the stack. -/
def pushMark (item : Item) : Build Unit := do
  make
  meltLiterals
  put item
  checkLimits .empty

/-- Puts the literal `p` on the stack. -/
def pushLiteral (p : Nat) : Build Unit := do
  let fold := (← get).flags.fold
  pushNew (.literal fold [if fold then Unicode.foldLeast p else p])

/-! ## Parts that take a single rune -/

/-- Does the part take exactly one rune? -/
def Node.isStep : Node → Bool
  | .literal _ [_] => true
  | .set _ => true
  | .notNewline => true
  | .any => true
  | _ => false

/-- The set of a part that takes a single rune, `any` and `notNewline` apart. -/
def Node.stepSet : Node → CharSet
  | .literal fold [p] => literalSet fold p
  | .set s => s
  | _ => .empty

/-- Can the part take a newline by itself? -/
def Node.takesNewline : Node → Bool
  | .literal _ [p] => p = 10
  | .set s => s.has 10
  | .any => true
  | _ => false

/-- A part that takes what either of two parts takes, each of them a single rune. -/
def mergeSteps (m n : Node) : Node :=
  match m, n with
  | .any, _ => .any
  | _, .any => .any
  | .notNewline, _ => if n.takesNewline then .any else .notNewline
  | _, .notNewline => if m.takesNewline then .any else .notNewline
  | .literal f [p], .literal g [q] =>
    if p = q ∧ f = g then m else .set (m.stepSet.union n.stepSet)
  | _, _ => .set (m.stepSet.union n.stepSet)

/-- A set of all code points, or of all but the newline, takes every rune, or every other one. -/
def Node.tidied : Node → Node
  | .set s => if s = .all then .any else if s = .notNewline then .notNewline else .set s
  | n => n

/-- Do two single steps, or counted single steps, look alike? Whether a literal folds is not looked
at. -/
def Node.looksLike : Node → Node → Bool
  | .literal _ ps, .literal _ qs => ps == qs
  | .set s, .set t => s = t
  | .notNewline, .notNewline => true
  | .any, .any => true
  | .counted lazy least most body, .counted lazy' least' most' body' =>
    lazy == lazy' && least == least' && most == most' && body.isStep && looksLike body body'
  | _, _ => false

/-- Can the part be factored out of a choice: a single step, or one repeated a fixed number of
times? -/
def Node.isFactor : Node → Bool
  | .counted _ least (some most) body => least == most && body.isStep
  | n => n.isStep

/-! ## Factoring -/

/-- The literal that a part starts with. -/
def Node.leadingLiteral : Node → Bool × List Nat
  | .literal fold points => (fold, points)
  | .sequence (.literal fold points :: _) => (fold, points)
  | _ => (false, [])

/-- The part without the first `n` code points of the literal it starts with. -/
def dropLiteral (n : Nat) : Node → Build Node
  | .literal fold points =>
    let rest := points.drop n
    pure (if rest.isEmpty then .empty else .literal fold rest)
  | .sequence (.literal fold points :: parts) => do
    let rest := points.drop n
    if rest.isEmpty then
      giveBack
      match parts with
      | [] => pure .empty
      | [part] => giveBack; pure part
      | parts => pure (.sequence parts)
    else pure (.sequence (.literal fold rest :: parts))
  | node => pure node

/-- The part that a part starts with. -/
def Node.leading? : Node → Option Node
  | .empty => none
  | .sequence (.empty :: _) => none
  | .sequence (part :: _) => some part
  | node => some node

/-- The part without the part it starts with; `again` if that one is not needed any more. -/
def dropLeading (again : Bool) : Node → Build Node
  | .sequence (_ :: parts) => do
    if again then giveBack
    match parts with
    | [] => pure .empty
    | [part] => giveBack; pure part
    | parts => pure (.sequence parts)
  | _ => do
    if again then giveBack
    make
    pure .empty

/-- The longest common start of two lists. -/
def commonStart : List Nat → List Nat → List Nat
  | a :: as, b :: bs => if a = b then a :: commonStart as bs else []
  | _, _ => []

/-- Parts in a row with a common leading literal. -/
structure LiteralRun where
  fold : Bool
  points : List Nat
  parts : List Node

/-- Cuts the parts into runs with a common leading literal; `run` is the run begun, its parts in
reverse. -/
def literalRuns (run : LiteralRun) : List Node → List LiteralRun
  | [] => [{ run with parts := run.parts.reverse }]
  | part :: parts =>
    let (fold, points) := part.leadingLiteral
    let common := commonStart run.points points
    if fold = run.fold ∧ common ≠ [] then
      literalRuns { run with points := common, parts := part :: run.parts } parts
    else { run with parts := run.parts.reverse } :: literalRuns ⟨fold, points, [part]⟩ parts

/-- Cuts the parts into runs that start alike; `run` is the run begun, in reverse. -/
def leadingRuns (first : Option Node) (run : List Node) : List Node → List (Option Node × List Node)
  | [] => [(first, run.reverse)]
  | part :: parts =>
    let lead := part.leading?
    match first, lead with
    | some f, some l =>
      if f.looksLike l && f.isFactor then leadingRuns first (part :: run) parts
      else (first, run.reverse) :: leadingRuns lead [part] parts
    | _, _ => (first, run.reverse) :: leadingRuns lead [part] parts

/-- Merges parts in a row that take a single rune each. -/
def mergeRuns (run : List Node) : List Node → Build (List Node)
  | [] => flush run
  | part :: parts => do
    if part.isStep then mergeRuns (part :: run) parts
    else
      let done ← flush run
      let more ← mergeRuns [] parts
      pure (done ++ part :: more)
where
  /-- The part that a run, given in reverse, becomes. -/
  flush : List Node → Build (List Node)
    | [] => pure []
    | [part] => pure [part]
    | last :: others => do
      others.forM fun _ => giveBack
      pure [(others.foldl (fun n m => mergeSteps m n) last).tidied]

/-- Leaves one of several empty parts in a row. -/
def dropEmpties : List Node → List Node
  | .empty :: .empty :: parts => dropEmpties (.empty :: parts)
  | part :: parts => part :: dropEmpties parts
  | [] => []

/-- Lifts the parts of choices among the parts. -/
def liftChoices : List Node → Build (List Node)
  | [] => pure []
  | .choice inner :: parts => do
    giveBack
    pure (inner ++ (← liftChoices parts))
  | part :: parts => do pure (part :: (← liftChoices parts))

/-- A choice between the parts, factored `depth` levels deep. -/
def factored : (depth : Nat) → List Node → Build Node
  | _, [part] => pure part
  | 0, parts => pure (.choice parts)
  | depth + 1, parts => do
    make
    let parts ← liftChoices parts
    -- common literals
    let runs := (literalRuns ⟨false, [], []⟩ parts).filter (!·.parts.isEmpty)
    let parts ← runs.mapM fun run =>
      match run.parts with
      | [part] => pure part
      | parts => do
        make
        let rests ← parts.mapM fun part => do
          let rest ← dropLiteral run.points.length part
          checkLimits rest
          pure rest
        let tail ← factored depth rests
        make
        pure (.sequence [.literal run.fold run.points, tail])
    -- common first parts
    let runs := (leadingRuns none [] parts).filter (!·.2.isEmpty)
    let parts ← runs.mapM fun (first, parts) =>
      match first, parts with
      | some lead, head :: next :: others => do
        let rest ← dropLeading false head
        checkLimits rest
        let rests ← (next :: others).mapM fun part => do
          let rest ← dropLeading true part
          checkLimits rest
          pure rest
        let tail ← factored depth (rest :: rests)
        make
        pure (.sequence [lead, tail])
      | _, parts => pure (parts.headD .empty)
    let parts ← mergeRuns [] parts
    match dropEmpties parts with
    | [part] => giveBack; pure part
    | parts => pure (.choice parts)

/-! ## Closing sequences and choices -/

/-- The parts on top of the stack down to the next mark, the lowest first, and the rest. -/
def topParts : List Item → List Node × List Item
  | .part n :: rest =>
    let (parts, below) := topParts rest
    (parts ++ [n], below)
  | stack => ([], stack)

/-- Takes the parts above the topmost mark off the stack. -/
def takeParts : Build (List Node) := do
  let (parts, below) := topParts (← get).stack
  modify fun a => { a with stack := below }
  pure parts

/-- Lifts the parts of sequences among the parts. -/
def liftSequences : List Node → Build (List Node)
  | [] => pure []
  | .sequence inner :: parts => do
    giveBack
    pure (inner ++ (← liftSequences parts))
  | part :: parts => do pure (part :: (← liftSequences parts))

/-- Replaces the parts above the topmost mark by their sequence. -/
def closeSequence : Build Unit := do
  meltLiterals
  match ← takeParts with
  | [] => pushNew .empty
  | [part] => push part
  | parts => do
    make
    push (.sequence (← liftSequences parts))

/-- Tidies the last of the parts. -/
def tidyLast : List Node → List Node
  | [] => []
  | [part] => [part.tidied]
  | part :: parts => part :: tidyLast parts

/-- Replaces the parts above the topmost mark by a choice between them. -/
def closeChoice : Build Unit := do
  let parts := tidyLast (← takeParts)
  push (← factored (Node.weights parts + 1) parts)

/-- If the top of the stack is a part above a bar, moves the part below the bar. A part that takes a
single rune melts with such a part below. Returns whether there was a bar. -/
def swapBar : Build Bool := do
  match (← get).stack with
  | .part top :: .bar :: .part below :: rest =>
    if top.isStep && below.isStep then
      modify fun a => { a with stack := .bar :: .part (mergeSteps below top) :: rest }
      giveBack
    else
      modify fun a => { a with stack := .bar :: .part top :: .part below.tidied :: rest }
    pure true
  | top :: .bar :: rest =>
    modify fun a => { a with stack := .bar :: top :: rest }
    pure true
  | _ => pure false

/-- Closes the sequence at a bar. -/
def readBar : Build Unit := do
  closeSequence
  unless ← swapBar do pushMark .bar

/-- Closes the sequence and the choice it is the last part of. -/
def closeAll : Build Unit := do
  closeSequence
  if ← swapBar then modify fun a => { a with stack := a.stack.drop 1 }
  closeChoice

/-- Closes the group at a parenthesis and goes back to the modes outside of it. -/
def closeGroup : Build Unit := do
  closeAll
  match (← get).stack with
  | .part body :: .group capturing outer :: rest =>
    modify fun a => { a with stack := rest, flags := outer }
    push (if capturing then .capture body else body)
  | _ => failWhole .unexpectedParen

/-- Repeats the topmost part: `wrap` makes the repetition of it. Returns the repetition, or nothing
if there is no part to repeat. -/
def repeatTop (wrap : Node → Node) : Build (Option Node) := do
  match (← get).stack with
  | .part body :: rest =>
    let node := wrap body
    make
    modify fun a => { a with stack := .part node :: rest }
    checkLimits node
    pure (some node)
  | _ => pure none

end Munch.Pattern
