import Munch.Source

/-!
# Asking a source

A source is asked two things, in any order and as often as one likes: whether it has ended, and for
its next rune. A reader can only be read. A slot for one rune in front of it makes a source of it,
which gives the runes of the reader in their order whatever it is asked in between, knows its end,
and leaves the reader alone once it has stopped.

* `Feed`: a kind of source, by what it answers. `Feed.askAll` asks one question after the other.
* `Feed.logged`: the same source, with a list of the answers that it has given.
* `Supplies read r R stop`: read again and again, `r` gives the runes `R` and then stops for the
  reason `stop`; what it would answer to being read after that is left open.
* `Buffered.Serving`: a reader behind a slot has certain runes left to give.
* `Source.feed`: the sources of a lexer.

Results:
* `Buffered.ask_serving`: what one question is answered, and what is left after it.
* `Buffered.logging_ask`: a question reads on only if the reader has not stopped.
* **`reader_serves_in_order`**: what a reader behind a slot answers to any questions, and how it is
  read.
-/

namespace Munch

/-! ## Questions and answers -/

/-- A kind of source, by what it answers. -/
structure Feed (σ : Type) where
  atEnd : σ → Bool × σ
  next : σ → Except Stop Rune × σ

namespace Feed

/-- What a source can be asked. -/
inductive Question where
  /-- has it ended? -/
  | atEnd
  /-- what is the next rune? -/
  | next
  deriving DecidableEq, Repr, Inhabited

/-- What a source answers. -/
inductive Answer where
  | said (ended : Bool)
  | gave (rune : Except Stop Rune)
  deriving Repr, Inhabited

variable {σ : Type}

/-- Asks a question. -/
def ask (f : Feed σ) : Question → σ → Answer × σ
  | .atEnd, s => (.said (f.atEnd s).1, (f.atEnd s).2)
  | .next, s => (.gave (f.next s).1, (f.next s).2)

/-- Asks one question after the other. -/
def askAll (f : Feed σ) : List Question → σ → List Answer × σ
  | [], s => ([], s)
  | q :: qs, s =>
    let (answer, s) := f.ask q s
    let (answers, s) := f.askAll qs s
    (answer :: answers, s)

/-- The same source, with the answers that it has given. -/
def logged (f : Feed σ) : Feed (σ × List Answer) where
  atEnd := fun (s, log) => ((f.atEnd s).1, ((f.atEnd s).2, log ++ [.said (f.atEnd s).1]))
  next := fun (s, log) => ((f.next s).1, ((f.next s).2, log ++ [.gave (f.next s).1]))

end Feed

/-! ## Readers -/

variable {ρ : Type}

/-- Read again and again, the reader gives the runes one after the other, and then a reason to
stop. -/
inductive Supplies (read : ρ → Except Stop Rune × ρ) : ρ → List Rune → Stop → Prop
  | stop {r r' : ρ} {stop : Stop} (h : read r = (.error stop, r')) : Supplies read r [] stop
  | rune {r r' : ρ} {rune : Rune} {rest : List Rune} {stop : Stop} (h : read r = (.ok rune, r'))
      (more : Supplies read r' rest stop) : Supplies read r (rune :: rest) stop

/-- The same reader, with the answers that it has given. -/
def logReads (read : ρ → Except Stop Rune × ρ) (r : ρ × List (Except Stop Rune)) :
    Except Stop Rune × (ρ × List (Except Stop Rune)) :=
  ((read r.1).1, ((read r.1).2, r.2 ++ [(read r.1).1]))

/-- All that a reader answers, up to the reason why it stops. -/
def readings (R : List Rune) (stop : Stop) : List (Except Stop Rune) := R.map .ok ++ [.error stop]

theorem Supplies.logReads {read : ρ → Except Stop Rune × ρ} {r : ρ} {R : List Rune} {stop : Stop}
    (h : Supplies read r R stop) (log : List (Except Stop Rune)) :
    Supplies (logReads read) (r, log) R stop := by
  induction h generalizing log with
  | stop h => exact .stop (by rw [Munch.logReads, h])
  | rune h _ ih => exact .rune (by rw [Munch.logReads, h]) (ih _)

theorem Reader.supplies (rest : List Rune) (stop : Stop) :
    Supplies Reader.read ⟨rest, stop⟩ rest stop := by
  induction rest with
  | nil => exact .stop rfl
  | cons rune rest ih => exact .rune rfl ih

namespace Buffered

/-- A reader behind a slot, as a source. -/
def feed (read : ρ → Except Stop Rune × ρ) : Feed (Buffered ρ) := ⟨atEnd read, next read⟩

/-- What a reader of the runes `R` answers behind a slot if `n` runes have been asked for. -/
def reply (R : List Rune) (stop : Stop) (n : Nat) : Feed.Question → Feed.Answer
  | .atEnd => .said (R.length ≤ n && stop == .ended)
  | .next => .gave (R[n]?.elim (.error stop) .ok)

/-- A reader behind a slot has the runes `left` to give, and then stops for the reason `stop`. -/
inductive Serving (read : ρ → Except Stop Rune × ρ) (stop : Stop) : Buffered ρ → List Rune → Prop
  | empty {r : ρ} {left : List Rune} (h : Supplies read r left stop) :
      Serving read stop ⟨r, none, none⟩ left
  | full {r : ρ} {rune : Rune} {left : List Rune} (h : Supplies read r left stop) :
      Serving read stop ⟨r, some rune, none⟩ (rune :: left)
  | stopped (r : ρ) : Serving read stop ⟨r, none, some stop⟩ []

variable {read : ρ → Except Stop Rune × ρ} {stop : Stop} {b : Buffered ρ} {left R : List Rune}
  {n : Nat}

/-- Looking ahead fills the slot if a rune is left, and otherwise finds the reason to stop. -/
theorem peek_serving (h : Serving read stop b left) :
    (left = [] ∧ ∃ r, b.peek read = ⟨r, none, some stop⟩) ∨
      ∃ rune rest r, left = rune :: rest ∧ b.peek read = ⟨r, some rune, none⟩ ∧
        Supplies read r rest stop := by
  cases h with
  | full h => exact .inr ⟨_, _, _, rfl, rfl, h⟩
  | stopped r => exact .inl ⟨rfl, r, rfl⟩
  | empty h =>
    cases h with
    | stop h =>
      rw [peek, h]
      exact .inl ⟨rfl, _, rfl⟩
    | rune h more =>
      rw [peek, h]
      exact .inr ⟨_, _, _, rfl, rfl, more⟩

/-- **One question.** It is answered by what is left, and a rune that is given is left no more. -/
theorem ask_serving (h : Serving read stop b (R.drop n)) (q : Feed.Question) :
    ((feed read).ask q b).1 = reply R stop n q ∧
      Serving read stop ((feed read).ask q b).2 (R.drop (n + [q].count .next)) := by
  obtain ⟨hnil, r, hpeek⟩ | ⟨rune, rest, r, hcons, hpeek, hrest⟩ := peek_serving h
  · have hle : R.length ≤ n := List.drop_eq_nil_iff.mp hnil
    have hnone : R[n]? = none := List.getElem?_eq_none hle
    have hstays {m : Nat} (hm : n ≤ m) : Serving read stop (b.peek read) (R.drop m) := by
      rw [hpeek, List.drop_eq_nil_of_le (Nat.le_trans hle hm)]
      exact .stopped r
    cases q with
    | atEnd => exact ⟨by simp [Feed.ask, feed, atEnd, hpeek, reply, hle], hstays (Nat.le_refl n)⟩
    | next =>
      refine ⟨by simp [Feed.ask, feed, next, hpeek, reply, hnone], ?_⟩
      have hkept : (b.next read).2 = b.peek read := by rw [next, hpeek]
      show Serving read stop (b.next read).2 (R.drop (n + 1))
      rw [hkept]
      exact hstays (Nat.le_succ n)
  · have hlt : ¬R.length ≤ n := fun hle => by
      rw [List.drop_eq_nil_of_le hle] at hcons
      cases hcons
    have hsome : R[n]? = some rune := by rw [← List.head?_drop, hcons, List.head?_cons]
    cases q with
    | atEnd =>
      refine ⟨by simp [Feed.ask, feed, atEnd, hpeek, reply, hlt], ?_⟩
      show Serving read stop (b.peek read) (R.drop n)
      rw [hpeek, hcons]
      exact .full hrest
    | next =>
      have hmore : R.drop (n + 1) = rest := by rw [← List.tail_drop, hcons, List.tail_cons]
      refine ⟨by simp [Feed.ask, feed, next, hpeek, reply, hsome], ?_⟩
      show Serving read stop (b.next read).2 (R.drop (n + 1))
      rw [next, hpeek, hmore]
      exact .empty hrest

/-- What one question after the other is answered. -/
theorem askAll_serving (qs : List Feed.Question) (h : Serving read stop b (R.drop n)) (i : Nat) :
    ((feed read).askAll qs b).1[i]? = qs[i]?.map (reply R stop (n + (qs.take i).count .next)) := by
  induction qs generalizing b n i with
  | nil => rfl
  | cons q qs ih =>
    obtain ⟨hreply, hserving⟩ := ask_serving h q
    cases i with
    | zero => exact congrArg some hreply
    | succ i =>
      have hcount : n + (q :: qs.take i).count .next =
          n + [q].count .next + (qs.take i).count .next := by
        rw [← List.singleton_append, List.count_append, Nat.add_assoc]
      rw [List.take_succ_cons, hcount, List.getElem?_cons_succ]
      exact ih hserving i

/-! ## How the reader is read -/

/-- The reader has given some of the answers that it has to give, and has stopped if it has given
all. -/
inductive Logging (read : ρ → Except Stop Rune × ρ) (all : List (Except Stop Rune)) :
    Buffered (ρ × List (Except Stop Rune)) → Prop
  | live {r : ρ} {log : List (Except Stop Rune)} {left : List Rune} {stop : Stop}
      {slot : Option Rune}
      (h : Supplies read r left stop) (hall : log ++ readings left stop = all) :
      Logging read all ⟨(r, log), slot, none⟩
  | stopped (r : ρ) (slot : Option Rune) (stop : Stop) :
      Logging read all ⟨(r, all), slot, some stop⟩

variable {all : List (Except Stop Rune)} {b : Buffered (ρ × List (Except Stop Rune))}

theorem logging_peek (h : Logging read all b) : Logging read all (b.peek (logReads read)) := by
  cases h with
  | stopped r slot stop => cases slot <;> exact .stopped r _ stop
  | @live r log left stop slot h hall =>
    cases slot with
    | some rune => exact .live h hall
    | none =>
      cases h with
      | stop h =>
        rw [peek, logReads, h]
        exact hall ▸ .stopped _ _ _
      | rune h more =>
        rw [peek, logReads, h]
        refine .live more ?_
        rw [← hall, List.append_assoc]
        rfl

/-- A question reads on only if the reader has not stopped. -/
theorem logging_ask (h : Logging read all b) (q : Feed.Question) :
    Logging read all ((feed (logReads read)).ask q b).2 := by
  have hpeek := logging_peek h
  cases q with
  | atEnd => exact hpeek
  | next =>
    show Logging read all (b.next (logReads read)).2
    rw [next]
    generalize b.peek (logReads read) = b' at hpeek ⊢
    cases hpeek with
    | @live r log left stop slot h hall => cases slot <;> exact .live h hall
    | stopped r slot stop => cases slot <;> exact .stopped r _ stop

theorem logging_askAll (h : Logging read all b) (qs : List Feed.Question) :
    Logging read all ((feed (logReads read)).askAll qs b).2 := by
  induction qs generalizing b with
  | nil => exact h
  | cons q qs ih => exact ih (logging_ask h q)

theorem Logging.isPrefix (h : Logging read all b) : b.reader.2 <+: all := by
  cases h with
  | live h hall => exact ⟨_, hall⟩
  | stopped r slot stop => exact List.prefix_rfl

end Buffered

open Buffered

/-- The sources of a lexer. -/
def Source.feed : Feed Source := ⟨Source.atEnd, Source.next⟩

theorem Source.askAll_buffered (questions : List Feed.Question) (b : Buffered Reader)
    (path : Text) :
    (Source.feed.askAll questions (.buffered b path)).1 =
      ((Buffered.feed Reader.read).askAll questions b).1 := by
  induction questions generalizing b with
  | nil => rfl
  | cons q questions ih => cases q <;> exact congrArg (_ :: ·) (ih _)

/-- **A reader behind a slot serves its runes in order.** Let a reader give the runes `R` and then
stop for the reason `stop`, and ask for runes and for the end in any order and any number. The
`i`-th time a rune is asked for it is the `i`-th of `R`, or the reason if there are no more; the
input is said to have ended iff all runes have been given and the reader stops with the end of the
input. The answers of the reader are those up to its first stop at most: it is never read again
after that, whatever it would answer. So a source of a lexer, with the runes in a list, stands for
any reader of these runes. -/
theorem reader_serves_in_order {read : ρ → Except Stop Rune × ρ} {r : ρ} {R : List Rune}
    {stop : Stop} (h : Supplies read r R stop) (questions : List Feed.Question) :
    (∀ i, ((feed read).askAll questions ⟨r, none, none⟩).1[i]? =
        questions[i]?.map (reply R stop ((questions.take i).count .next))) ∧
      ((feed (logReads read)).askAll questions ⟨(r, []), none, none⟩).1 =
        ((feed read).askAll questions ⟨r, none, none⟩).1 ∧
      ((feed (logReads read)).askAll questions ⟨(r, []), none, none⟩).2.reader.2 <+:
        readings R stop ∧
      ∀ path, (Source.feed.askAll questions (.buffered ⟨⟨R, stop⟩, none, none⟩ path)).1 =
        ((feed read).askAll questions ⟨r, none, none⟩).1 := by
  have hanswers (i : Nat) : ((feed read).askAll questions ⟨r, none, none⟩).1[i]? =
      questions[i]?.map (reply R stop ((questions.take i).count .next)) := by
    rw [askAll_serving (n := 0) questions (.empty h), Nat.zero_add]
  refine ⟨hanswers, List.ext_getElem? fun i => ?_, ?_, fun path => List.ext_getElem? fun i => ?_⟩
  · rw [hanswers, askAll_serving (n := 0) questions (.empty (h.logReads [])), Nat.zero_add]
  · exact (logging_askAll (.live h rfl) questions).isPrefix
  · rw [Source.askAll_buffered, hanswers,
      askAll_serving (n := 0) questions (.empty (Reader.supplies R stop)), Nat.zero_add]

/-- A reader that gives what is on a tape, also behind a reason to stop. -/
def readTape : List (Except Stop Rune) → Except Stop Rune × List (Except Stop Rune)
  | [] => (.error .ended, [])
  | answer :: tape => (answer, tape)

theorem reader_serves_in_order_tape :
    Supplies readTape [.ok 97, .ok 223, .error .ended, .ok 98] [97, 223] .ended ∧
      ((feed readTape).askAll [.atEnd, .next, .next, .atEnd, .next, .atEnd]
        ⟨[.ok 97, .ok 223, .error .ended, .ok 98], none, none⟩).1 =
          [.said false, .gave (.ok 97), .gave (.ok 223), .said true, .gave (.error .ended),
            .said true] ∧
      ((feed (logReads readTape)).askAll [.atEnd, .next, .next, .atEnd, .next, .atEnd]
        ⟨([.ok 97, .ok 223, .error .ended, .ok 98], []), none, none⟩).2.reader.2 <+:
          readings [97, 223] .ended := by
  have htape : Supplies readTape [.ok 97, .ok 223, .error .ended, .ok 98] [97, 223] .ended :=
    .rune rfl (.rune rfl (.stop rfl))
  obtain ⟨-, -, hlog, -⟩ :=
    reader_serves_in_order htape [.atEnd, .next, .next, .atEnd, .next, .atEnd]
  exact ⟨htape, rfl, hlog⟩

end Munch
