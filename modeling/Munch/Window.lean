import Munch.Source

/-!
# The window onto a source

A window keeps the runes that were read but not consumed. The cursor stands before the first of
them; `prev` is the rune before the cursor and `offset` the number of runes consumed.

* `peek` reads one rune if none is kept; `fill n` reads until `n` runes are kept or the source
  stops.
* `consume n` moves the cursor over `n` kept runes.
* `advance` and `rewind` walk ahead from rune to rune and back, for a matcher.

Once the source has stopped it is never asked again.
-/

namespace Munch

/-- How a source came to its end: it said so, it was found by reading, or reading failed. -/
inductive Ending where
  | announced
  | found
  | failed (message : Text)
  deriving DecidableEq, Repr, Inhabited

/-- The runes read but not consumed, and where the cursor stands. -/
structure Window where
  source : Source
  ahead : List Rune := []
  ending : Option Ending := none
  prev : Rune := Rune.absent
  offset : Nat := 0
  /-- the number of runes the source had at the start -/
  total : Nat
  deriving DecidableEq, Repr, Inhabited

namespace Window

/-- A window at the start of a source. -/
def ofSource (s : Source) : Window := { source := s, total := s.pending.length }

/-- The message of the read error that ended the source. -/
def failure? (w : Window) : Option Text :=
  match w.ending with
  | some (.failed message) => some message
  | _ => none

/-- Asks the source for one rune. -/
def pull (w : Window) : Window :=
  match w.ending with
  | some _ => w
  | none =>
    match w.source.atEnd with
    | (true, source) => { w with source := source, ending := some .announced }
    | (false, source) =>
      match source.next with
      | (.ok rune, source) => { w with source := source, ahead := w.ahead ++ [rune] }
      | (.error .ended, source) => { w with source := source, ending := some .found }
      | (.error (.broken message), source) =>
        { w with source := source, ending := some (.failed message) }

/-- The rune at the cursor, read if necessary. -/
def peek (w : Window) : Option Rune × Window :=
  match w.ahead with
  | rune :: _ => (some rune, w)
  | [] =>
    let w := w.pull
    (w.ahead.head?, w)

/-- Is there no more rune at the cursor? -/
def exhausted (w : Window) : Bool × Window :=
  let (rune, w) := w.peek
  (rune.isNone, w)

/-- Asks the source for `n` more runes. -/
def pullMany : (n : Nat) → Window → Window
  | 0, w => w
  | n + 1, w => if w.ending.isSome then w else pullMany n w.pull

/-- Reads until `n` runes are kept or the source stops. -/
def fill (w : Window) (n : Nat) : Window := pullMany (n - w.ahead.length) w

/-- The rune `i` places behind the cursor, read if necessary. -/
def at? (w : Window) (i : Nat) : Option Rune × Window :=
  let w := w.fill (i + 1)
  (w.ahead[i]?, w)

/-- At most `n` runes from the cursor on. -/
def lookahead (w : Window) (n : Nat) : List Rune × Window :=
  let w := w.fill n
  (w.ahead.take n, w)

/-- Reads on to the end; `kept` are the runes read so far, the latest first. -/
def drainFrom : (fuel : Nat) → (kept : List Rune) → Window → Window
  | 0, kept, w => { w with ahead := kept.reverse ++ w.ahead }
  | fuel + 1, kept, w =>
    match w.ahead with
    | rune :: rest => drainFrom fuel (rune :: kept) { w with ahead := rest }
    | [] =>
      let w := w.pull
      match w.ahead with
      | [] => { w with ahead := kept.reverse }
      | rune :: rest => drainFrom fuel (rune :: kept) { w with ahead := rest }

/-- Reads everything the source has. -/
def drain (w : Window) : Window := drainFrom (w.total + 1) [] w

/-- Are `n` runes kept? -/
def keeps (w : Window) (n : Nat) : Bool := (w.ahead.take n).length == n

/-- Moves the cursor over `n` runes that are kept. Returns them. -/
def consume (w : Window) (n : Nat) : List Rune × Window :=
  let taken := w.ahead.take n
  (taken, { w with
    ahead := w.ahead.drop n
    offset := w.offset + n
    prev := taken.getLast?.getD w.prev })

/-- The window one rune further. -/
def advance (w : Window) : Window := { w with ahead := w.ahead.drop 1 }

/-- The window back at the place where the runes `passed`, the latest first, were still ahead. -/
def rewind (w : Window) (passed : List Rune) : Window :=
  { w with ahead := passed.reverseAux w.ahead }

/-- The number of runes seen so far, consumed or not. -/
def seen (w : Window) : Nat := w.offset + w.ahead.length

end Window

end Munch
