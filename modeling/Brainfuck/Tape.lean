import Brainfuck.Fault
import Std.Data.TreeMap.Lemmas

/-! The tape: byte cells from address 0 on, all zero at first. Its size is the
number of cells set aside; it doubles until a stored address fits. Cells beyond
it read as zero. Memory may have room for so many cells only; a store for which
there is no room is refused. -/

namespace Brainfuck

structure Tape where
  size : Nat
  size_pos : 0 < size
  /-- The cells that were stored; the others are zero. -/
  cells : Std.TreeMap Nat UInt8 := {}
  /-- The highest address touched. -/
  high : Nat := 0
  /-- The most cells that memory has room for, if they are limited. -/
  room : Option Nat := none

namespace Tape

def defaultSize : Int := 30000

/-- A tape of zeros in memory without limits. It has at least one cell. -/
def blank (size : Int) : Tape :=
  { size := max 1 size.toNat, size_pos := by omega }

/-- The least size, among a size and its doublings, that an address fits. -/
def sizeFor (size address : Nat) : Nat :=
  if address < size then size else size <<< ((address / size).log2 + 1)

theorem sizeFor_pos {size : Nat} (positive : 0 < size) (address : Nat) :
    0 < sizeFor size address := by
  unfold sizeFor
  split
  · exact positive
  · rw [Nat.shiftLeft_eq]
    exact Nat.mul_pos positive (Nat.two_pow_pos _)

theorem lt_sizeFor {size : Nat} (positive : 0 < size) (address : Nat) :
    address < sizeFor size address := by
  unfold sizeFor
  split
  · assumption
  · next beyond =>
    have quotient : address / size ≠ 0 := by
      have := Nat.div_pos (Nat.le_of_not_lt beyond) positive
      omega
    have bound := (Nat.log2_lt quotient (k := (address / size).log2 + 1)).mp (Nat.lt_succ_self _)
    rw [Nat.shiftLeft_eq, Nat.mul_comm]
    exact (Nat.div_lt_iff_lt_mul positive).mp bound

def read (tape : Tape) (address : Nat) : UInt8 := tape.cells.getD address 0

/-- Put a value into a cell, with room made for it. -/
def store (tape : Tape) (address : Nat) (value : UInt8) : Tape :=
  { tape with
    size := sizeFor tape.size address
    size_pos := sizeFor_pos tape.size_pos address
    cells := tape.cells.insert address value }

/-- Note that an address was reached; nothing is set aside for it. -/
def touch (tape : Tape) (address : Int) : Tape :=
  { tape with high := max tape.high address.toNat }

@[simp]
theorem read_blank (size : Int) (address : Nat) : (blank size).read address = 0 := by
  simp [read, blank]

@[simp]
theorem read_touch (tape : Tape) (address : Int) (other : Nat) :
    (tape.touch address).read other = tape.read other := rfl

theorem read_store (tape : Tape) (address other : Nat) (value : UInt8) :
    (tape.store address value).read other = if address = other then value else tape.read other := by
  simp [read, store, Std.TreeMap.getD_insert]

/-- The cell that a negative address means, counted from the end of the tape. -/
def fromEnd (tape : Tape) (back : Nat) : Except Fault Nat :=
  if back < tape.size then .ok (tape.size - 1 - back) else .error .outOfRange

/-- The value at an address; zero beyond the end. -/
def get (tape : Tape) : Int → Except Fault UInt8
  | .ofNat address => .ok (tape.read address)
  | .negSucc back => do return tape.read (← tape.fromEnd back)

/-- The most cells that have an address. -/
def addressSpace : Nat := 9223372036854775807

/-- The most cells that fit the memory of one machine. -/
def memorySize : Nat := 1099511627776

def checkRoom (size : Nat) : Option Nat → Except Fault Unit
  | none => .ok ()
  | some room =>
    if addressSpace < size then .error (.tooManyCells size)
    else if room < size then .error (.outOfMemory size)
    else .ok ()

/-- Whether an address fits the tape or what memory has room for. -/
def checkFits (tape : Tape) (address : Nat) : Except Fault Unit :=
  if address < tape.size then .ok () else checkRoom (sizeFor tape.size address) tape.room

/-- Store a value, with room made for the address, and touch the address. -/
def put (tape : Tape) (address : Int) (value : UInt8) : Except Fault Tape :=
  match address with
  | .ofNat place => do
    tape.checkFits place
    return (tape.store place value).touch address
  | .negSucc back => do return tape.store (← tape.fromEnd back) value

theorem get_natCast (tape : Tape) (address : Nat) :
    tape.get address = .ok (tape.read address) := rfl

theorem checkFits_of_room_eq_none {tape : Tape} (unlimited : tape.room = none) (address : Nat) :
    tape.checkFits address = .ok () := by
  unfold checkFits checkRoom
  split <;> simp [unlimited]

theorem put_natCast {tape : Tape} (unlimited : tape.room = none) (address : Nat) (value : UInt8) :
    tape.put address value = .ok ((tape.store address value).touch address) := by
  change (do tape.checkFits address; return (tape.store address value).touch address) = _
  rw [checkFits_of_room_eq_none unlimited]
  rfl

def set (tape : Tape) (address value : Int) : Except Fault Tape :=
  tape.put address (.ofInt value)

/-- Add to a cell modulo 256; the sum is returned too. -/
def add (tape : Tape) (address delta : Int) : Except Fault (UInt8 × Tape) := do
  let sum := (← tape.get address) + .ofInt delta
  return (sum, ← tape.put address sum)

/-- A tape of zeros in the memory of one machine. -/
def allocate (size : Int) : Except Fault Tape := do
  let tape := { blank size with room := some memorySize }
  checkRoom tape.size tape.room
  return tape

/-- The cells at most a distance away from an address, and where they begin. What
would lie left of address 0 is left out. -/
def window (tape : Tape) (center radius : Int) : Nat × List UInt8 :=
  let start := (center - radius).toNat
  (start, (List.range' start ((center + radius + 1) - start).toNat).map tape.read)

/-- The cells from 0 up to the highest address touched, as far as they are set
aside. -/
def snapshot (tape : Tape) : List UInt8 :=
  (List.range (min (tape.high + 1) tape.size)).map tape.read

end Tape
end Brainfuck
