import Munch.Pattern.Regex

/-!
# Patterns over bytes

The dialect of option `dfa` is read from bytes and matches bytes: sets in brackets, groups, `|`, and
the operators `*`, `+` and `?`. It has no anchors, no counted repetitions and no modes.

Its grammar is forgiving: a construct that cannot be read is left out, and reading goes on where it
stopped. What is left out leaves a `missing` part, unless it would have been the last one of a
sequence or a choice. A pattern is unreadable only if something is left at its end.

* `ByteTree.parse?` is `none` for an unreadable pattern.
* `ByteTree.regex?` is `none` for a pattern with a missing part.
-/

namespace Munch.Bytes

/-- A pattern over bytes. -/
inductive ByteTree where
  | missing
  | set (s : CharSet)
  | seq (first second : ByteTree)
  | alt (left right : ByteTree)
  | star (body : ByteTree)
  | plus (body : ByteTree)
  | option (body : ByteTree)
  deriving DecidableEq, Repr, Inhabited

/-- The byte of an ASCII character. -/
def byte (c : Char) : UInt8 := c.toNat.toUInt8

/-! ## Sets in brackets -/

/-- Puts a range in its place among ranges ordered by their ends. -/
def insertOrdered (r : Nat × Nat) : List (Nat × Nat) → List (Nat × Nat)
  | [] => [r]
  | s :: rest =>
    if r.1 < s.1 ∨ (r.1 = s.1 ∧ r.2 ≤ s.2) then r :: s :: rest else s :: insertOrdered r rest

/-- Merges ordered ranges into the range `last`. A range that reaches into `last` ends it, even if
it ends earlier than `last` did; one that starts with it is dropped. -/
def mergeOrdered (last : Nat × Nat) : List (Nat × Nat) → List (Nat × Nat)
  | [] => [last]
  | r :: rest =>
    if r.1 ≤ (last.2 + 1) % 256 then
      if r.1 ≤ last.1 then mergeOrdered last rest else mergeOrdered (last.1, r.2) rest
    else last :: mergeOrdered r rest

/-- The set of the ranges of a class. -/
def classSet (ranges : List (Nat × Nat)) : CharSet :=
  match ranges.foldl (fun rs r => insertOrdered r rs) [] with
  | [] => .empty
  | r :: rs => .ofRanges (mergeOrdered r rs)

/-- Reads one byte of a class; a backslash takes the next byte as it is, but for `\n`, `\r`,
`\t`. -/
def readClassByte : List UInt8 → Option (Nat × List UInt8)
  | [] => none
  | a :: rest =>
    if a = byte '\\' then
      match rest with
      | [] => some (a.toNat, [])
      | b :: rest =>
        if b = byte 'n' then some (10, rest)
        else if b = byte 'r' then some (13, rest)
        else if b = byte 't' then some (9, rest)
        else some (b.toNat, rest)
    else some (a.toNat, rest)

/-- Reads a byte or a range; the ends of a range may be given in either order. -/
def readClassItem (t : List UInt8) : Option ((Nat × Nat) × List UInt8) := do
  let (lo, rest) ← readClassByte t
  match rest with
  | a :: tail =>
    if a = byte '-' then
      let (hi, rest) ← readClassByte tail
      some ((min lo hi, max lo hi), rest)
    else some ((lo, lo), rest)
  | [] => some ((lo, lo), [])

/-- Reads items up to the closing bracket, at least one; `none` if it is missing. -/
def readClassItems : (fuel : Nat) → List (Nat × Nat) → List UInt8 →
    Option (List (Nat × Nat) × List UInt8)
  | 0, _, _ => none
  | fuel + 1, ranges, t => do
    let (r, rest) ← readClassItem t
    match rest with
    | [] => none
    | a :: tail =>
      if a = byte ']' then some (ranges ++ [r], tail) else readClassItems fuel (ranges ++ [r]) rest

/-- Reads a class whose opening bracket is gone. -/
def readClass (t : List UInt8) : Option (ByteTree × List UInt8) := do
  let (negated, t) := match t with
    | a :: rest => if a = byte '^' then (true, rest) else (false, t)
    | [] => (false, t)
  let (ranges, rest) ← readClassItems t.length [] t
  let s := classSet ranges
  some (.set (if negated then s.complement 255 else s), rest)

/-! ## Single bytes -/

/-- The class of a letter behind a backslash. -/
def letterSet? (b : UInt8) : Option CharSet :=
  let digits : CharSet := .range 48 57
  let spaces : CharSet := ⟨[(9, 10), (12, 13), (32, 32)]⟩
  let word : CharSet := ⟨[(48, 57), (65, 90), (95, 95), (97, 122)]⟩
  if b = byte 'd' then some digits
  else if b = byte 'D' then some (digits.complement 255)
  else if b = byte 's' then some spaces
  else if b = byte 'S' then some (spaces.complement 255)
  else if b = byte 'w' then some word
  else if b = byte 'W' then some (word.complement 255)
  else none

/-- Bytes that do not stand for themselves outside of classes. -/
def isOperator (b : UInt8) : Bool := "|+*?()[]^".toList.any fun c => byte c == b

/-- Reads a byte, an escape or a dot. -/
def readByte : List UInt8 → Option (ByteTree × List UInt8)
  | [] => none
  | a :: rest =>
    if a = byte '\\' then
      match rest with
      | [] => some (.set (.single a.toNat), [])
      | b :: tail =>
        match letterSet? b with
        | some s => some (.set s, tail)
        | none => do
          let (n, rest) ← readClassByte (a :: rest)
          some (.set (.single n), rest)
    else if isOperator a then none
    else if a = byte '.' then some (.set (.range 0 255), rest)
    else some (.set (.single a.toNat), rest)

/-! ## Operators and groups -/

/-- Applies the operators behind a part. -/
def readOperators (tree : ByteTree) : List UInt8 → ByteTree × List UInt8
  | [] => (tree, [])
  | a :: rest =>
    if a = byte '+' then readOperators (.plus tree) rest
    else if a = byte '*' then readOperators (.star tree) rest
    else if a = byte '?' then readOperators (.option tree) rest
    else (tree, a :: rest)

/-- Two parts in a row; a missing second one is left out. -/
def follow (first second : ByteTree) : ByteTree :=
  if second = .missing then first else .seq first second

/-- One of two parts; a missing second one is left out. -/
def orElse (left right : ByteTree) : ByteTree := if right = .missing then left else .alt left right

mutual

/-- Reads alternatives up to something that is none. -/
def readChoice : (fuel : Nat) → List UInt8 → ByteTree × List UInt8
  | 0, t => (.missing, t)
  | fuel + 1, t =>
    let (left, t) := readSequence fuel t
    let (right, t) := readMore fuel t
    (orElse left right, t)

/-- Reads the alternatives behind the first one. -/
def readMore : (fuel : Nat) → List UInt8 → ByteTree × List UInt8
  | 0, t => (.missing, t)
  | _ + 1, [] => (.missing, [])
  | fuel + 1, a :: t =>
    if a = byte '|' then
      let (left, t) := readSequence fuel t
      let (right, t) := readMore fuel t
      (orElse left right, t)
    else (.missing, a :: t)

/-- Reads parts in a row. -/
def readSequence : (fuel : Nat) → List UInt8 → ByteTree × List UInt8
  | 0, t => (.missing, t)
  | _ + 1, [] => (.missing, [])
  | fuel + 1, t =>
    match readPart fuel t with
    | (none, t) => (.missing, t)
    | (some first, t) =>
      let (first, t) := readOperators first t
      let (second, t) := readSequence fuel t
      (follow first second, t)

/-- Reads a byte, a class or a group. What follows is where reading stopped, also if it failed: a
class without an end takes everything. -/
def readPart : (fuel : Nat) → List UInt8 → Option ByteTree × List UInt8
  | 0, t => (none, t)
  | fuel + 1, t =>
    match readByte t with
    | some (tree, rest) => (some tree, rest)
    | none =>
      match t with
      | [] => (none, [])
      | a :: rest =>
        if a = byte '[' then
          match readClass rest with
          | some (tree, rest) => (some tree, rest)
          | none => (none, [])
        else if a = byte '(' then
          match readChoice fuel rest with
          | (tree, b :: rest) => if b = byte ')' then (some tree, rest) else (none, b :: rest)
          | (_, []) => (none, [])
        else (none, t)

end

/-- Reads a whole pattern; `none` if something is left at its end. -/
def ByteTree.parse? (bytes : List UInt8) : Option ByteTree :=
  match readChoice (4 * bytes.length + 4) bytes with
  | (tree, []) => some tree
  | (_, _ :: _) => none

/-- The meaning of a pattern over bytes; `none` if a part is missing. -/
def ByteTree.regex? : ByteTree → Option Regex
  | .missing => none
  | .set s => some (.step (.among s))
  | .seq first second => do some (.seq (← first.regex?) (← second.regex?))
  | .alt left right => do some (.alt (← left.regex?) (← right.regex?))
  | .star body => do some (.star (← body.regex?))
  | .plus body => do some (.plus (← body.regex?))
  | .option body => do some (.option (← body.regex?))

end Munch.Bytes
