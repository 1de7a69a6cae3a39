import Munch.Text.Basic

/-!
# Sources of runes

A reader delivers runes one at a time and then, forever, why there are no more: the end of the input
or a read error. `Buffered` puts a slot of one rune in front of a reader, so that it can say whether
the input has ended. A `Source` is a buffered reader, or a list of runes that answers by itself;
such a source may leave the end to be found by reading.

`Buffered.peek` reads at most one rune ahead, and never again once the reader has stopped.
-/

namespace Munch

/-- Why there are no more runes. -/
inductive Stop where
  | ended
  | broken (message : Text)
  deriving DecidableEq, Repr, Inhabited

/-- A reader with runes left, and the reason why it stops behind them. -/
structure Reader where
  rest : List Rune
  stop : Stop := .ended
  deriving DecidableEq, Repr, Inhabited

/-- Reads one rune. -/
def Reader.read (r : Reader) : Except Stop Rune × Reader :=
  match r.rest with
  | [] => (.error r.stop, r)
  | rune :: rest => (.ok rune, { r with rest := rest })

/-- A reader with a slot for one rune, which remembers why the reader stopped. -/
structure Buffered (ρ : Type) where
  reader : ρ
  slot : Option Rune := none
  stop : Option Stop := none
  deriving DecidableEq, Repr, Inhabited

namespace Buffered

variable {ρ : Type}

/-- Fills the slot, unless it is full or the reader has stopped. -/
def peek (read : ρ → Except Stop Rune × ρ) (b : Buffered ρ) : Buffered ρ :=
  match b.slot, b.stop with
  | none, none =>
    match read b.reader with
    | (.ok rune, reader) => { b with reader := reader, slot := some rune }
    | (.error stop, reader) => { b with reader := reader, stop := some stop }
  | _, _ => b

/-- Has the input ended? -/
def atEnd (read : ρ → Except Stop Rune × ρ) (b : Buffered ρ) : Bool × Buffered ρ :=
  let b := b.peek read
  (b.slot.isNone && b.stop == some .ended, b)

/-- Takes the next rune. -/
def next (read : ρ → Except Stop Rune × ρ) (b : Buffered ρ) : Except Stop Rune × Buffered ρ :=
  let b := b.peek read
  match b.slot with
  | some rune => (.ok rune, { b with slot := none })
  | none => (.error (b.stop.getD .ended), b)

end Buffered

/-- A source of runes. -/
inductive Source where
  /-- A reader behind a slot, with a path that may be empty. -/
  | buffered (b : Buffered Reader) (path : Text)
  /-- Runes and a reason to stop; `precise` if it knows its end without being read. -/
  | direct (r : Reader) (precise : Bool) (path : Option Text)
  deriving DecidableEq, Repr, Inhabited

namespace Source

/-- In-memory text. -/
def ofText (t : Text) : Source := .buffered ⟨⟨t.runes, .ended⟩, none, none⟩ []

/-- Text from a reader with a path, which stops for the reason given. -/
def ofReader (t : Text) (stop : Stop) (path : Text) : Source :=
  .buffered ⟨⟨t.runes, stop⟩, none, none⟩ path

/-- Does the source say that it has ended? -/
def atEnd : Source → Bool × Source
  | .buffered b path =>
    let (answer, b) := b.atEnd Reader.read
    (answer, .buffered b path)
  | .direct r precise path =>
    (precise && r.rest.isEmpty && r.stop == .ended, .direct r precise path)

/-- Takes the next rune. -/
def next : Source → Except Stop Rune × Source
  | .buffered b path =>
    let (answer, b) := b.next Reader.read
    (answer, .buffered b path)
  | .direct r precise path =>
    let (answer, r) := r.read
    (answer, .direct r precise path)

/-- The name a source gives itself, empty or not; `none` if it has no notion of a name. -/
def descriptor : Source → Option Text
  | .buffered _ path => some path
  | .direct _ _ path => path

/-- The name of a source, if it has one that is not empty. -/
def name (s : Source) : Option Text := s.descriptor.filter (!·.isEmpty)

/-- The runes a source still has to deliver. -/
def pending : Source → List Rune
  | .buffered b _ => b.slot.toList ++ (if b.stop.isNone then b.reader.rest else [])
  | .direct r _ _ => r.rest

end Source

end Munch
