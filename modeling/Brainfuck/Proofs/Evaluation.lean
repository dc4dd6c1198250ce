import Brainfuck.Proofs.Block

/-! What a block means, with no instructions and no indexes. A loop whose cell is zero
is skipped; otherwise its body is evaluated and then the loop again. A block that has
no evaluation runs for ever. -/

namespace Brainfuck

/-- What a block is evaluated on: a byte at each address, a pointer, the input that is
still to be read, and the output so far. -/
structure Store where
  cells : Nat → UInt8
  pointer : Nat
  input : List (Option Int)
  output : List UInt8

namespace Store

/-- All cells are zero and nothing has been read or written. -/
def initial (input : List (Option Int)) : Store := ⟨fun _ => 0, 0, input, []⟩

def cell (store : Store) : UInt8 := store.cells store.pointer

def write (store : Store) (value : UInt8) : Store :=
  { store with
    cells := fun address => if address = store.pointer then value else store.cells address }

/-- Read a value into the cell, modulo 256; without one the cell stays as it is. -/
def receive (store : Store) : Store :=
  match store.input with
  | [] => store
  | none :: rest => { store with input := rest }
  | some value :: rest => { store with input := rest }.write (.ofInt value)

/-- The store after a primitive; there is none to the left of address 0. -/
def perform (store : Store) : Primitive → Option Store
  | .right => some { store with pointer := store.pointer + 1 }
  | .left => if store.pointer = 0 then none else some { store with pointer := store.pointer - 1 }
  | .increment => some (store.write (store.cell + 1))
  | .decrement => some (store.write (store.cell - 1))
  | .output => some { store with output := store.output ++ [store.cell] }
  | .input => some store.receive
  | .breakpoint => some store

theorem perform_eq_none_iff {store : Store} {first : Primitive} :
    store.perform first = none ↔ first = .left ∧ store.pointer = 0 := by
  cases first <;> simp [perform]

end Store

/-- How an evaluation ends: behind the block, or in a move to the left of address 0. -/
inductive Outcome where
  | finished (store : Store)
  | failed (store : Store)

inductive Block.Evaluates : Block → Store → Outcome → Prop where
  | empty {store : Store} : Evaluates .empty store (.finished store)
  | primitive {first : Primitive} {rest : Block} {store next : Store} {outcome : Outcome}
      (performed : store.perform first = some next) (following : Evaluates rest next outcome) :
      Evaluates (.primitive first rest) store outcome
  | underflow {first : Primitive} {rest : Block} {store : Store}
      (stuck : store.perform first = none) : Evaluates (.primitive first rest) store (.failed store)
  | skip {body rest : Block} {store : Store} {outcome : Outcome} (zero : store.cell = 0)
      (following : Evaluates rest store outcome) : Evaluates (.loop body rest) store outcome
  | again {body rest : Block} {store middle : Store} {outcome : Outcome}
      (nonzero : store.cell ≠ 0) (inner : Evaluates body store (.finished middle))
      (following : Evaluates (.loop body rest) middle outcome) :
      Evaluates (.loop body rest) store outcome
  | inside {body rest : Block} {store last : Store} (nonzero : store.cell ≠ 0)
      (inner : Evaluates body store (.failed last)) :
      Evaluates (.loop body rest) store (.failed last)

end Brainfuck
