import Munch.Program.Basic

/-!
# Queues of threads

A queue holds the places where the threads of a program stand, each once, in the order in which they
came in. It is emptied without being wiped: `sparse` says of every place where in `dense` it would
stand, and what it says of places that are not there is left over from before.

* `Queue.contains` asks both arrays, so that leftovers do no harm.
* `Program.spread` follows all moves that take no rune, like `Program.visit`, into a queue.
-/

namespace Munch

/-- Places below `size`, each at most once; only the entries of `sparse` for places in `dense`
count. -/
structure Queue (size : Nat) where
  sparse : Vector Nat size
  dense : Array Nat
  /-- places of the queue know where they stand -/
  linked : ∀ i (h : i < dense.size), sparse[dense[i]]? = some i

namespace Queue

variable {size : Nat}

/-- A new queue. -/
def new (size : Nat) : Queue size := ⟨Vector.replicate size 0, #[], by simp⟩

instance : Inhabited (Queue size) := ⟨new size⟩

instance : Repr (Queue size) := ⟨fun q => reprPrec q.dense⟩

/-- The queue without its places. -/
def clear (q : Queue size) : Queue size := ⟨q.sparse, #[], by simp⟩

/-- Is the place in the queue? -/
def contains (q : Queue size) (pc : Nat) : Bool :=
  match q.sparse[pc]? with
  | some i => q.dense[i]? == some pc
  | none => false

theorem contains_of_mem {q : Queue size} {pc : Nat} (h : pc ∈ q.dense) : q.contains pc = true := by
  obtain ⟨i, hi, rfl⟩ := Array.mem_iff_getElem.mp h
  unfold contains
  rw [q.linked i hi]
  simp

/-- Leftovers never make a place look as if it were there. -/
theorem contains_iff {q : Queue size} {pc : Nat} : q.contains pc = true ↔ pc ∈ q.dense := by
  refine ⟨fun h => ?_, contains_of_mem⟩
  unfold contains at h
  split at h
  · exact Array.mem_of_getElem? (beq_iff_eq.mp h)
  · exact absurd h Bool.false_ne_true

/-- The queue with one more place at its end. -/
def insert (q : Queue size) (pc : Nat) (inside : pc < size) (isNew : q.contains pc = false) :
    Queue size where
  sparse := q.sparse.set pc q.dense.size
  dense := q.dense.push pc
  linked := by
    intro i h
    rw [Array.size_push] at h
    by_cases hi : i = q.dense.size
    · subst hi
      simp [inside]
    · have hlt : i < q.dense.size := by omega
      have hne : pc ≠ q.dense[i] := by
        rintro rfl
        rw [contains_of_mem (Array.getElem_mem hlt)] at isNew
        exact absurd isNew (by decide)
      rw [Array.getElem_push_lt hlt, Vector.getElem?_set_ne inside hne]
      exact q.linked i hlt

end Queue

namespace Program

/-- Visits the places of `todo` and all places they lead to without a rune, and puts them into the
queue. Each is visited once, so `fuel` steps are enough. -/
def spread (p : Program) (g : Gap) : (fuel : Nat) → (todo : List Nat) → Queue p.code.size →
    Queue p.code.size
  | 0, _, q => q
  | _ + 1, [], q => q
  | fuel + 1, pc :: todo, q =>
    if isNew : q.contains pc = false then
      if inside : pc < p.code.size then
        spread p g fuel (moves g p.code[pc] ++ todo) (q.insert pc inside isNew)
      else spread p g fuel todo q
    else spread p g fuel todo q

/-- The queue of all places that threads at `places` can get to without a rune. -/
def gather (p : Program) (g : Gap) (places : List Nat) (q : Queue p.code.size) :
    Queue p.code.size :=
  p.spread g (places.length + 2 * p.code.size + 1) places q.clear

end Program

end Munch
