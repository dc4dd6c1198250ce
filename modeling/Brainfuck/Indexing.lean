namespace Brainfuck

/-- The place that an index means in a sequence of a length: `-1` is the last. -/
def place? (length : Nat) : Int → Option Nat
  | .ofNat index => if index < length then some index else none
  | .negSucc back => if back < length then some (length - 1 - back) else none

@[simp]
theorem place?_natCast {length index : Nat} :
    place? length (index : Int) = if index < length then some index else none := rfl

end Brainfuck
