import Brainfuck.Fault
import Brainfuck.Symbol

namespace Brainfuck

inductive Instruction where
  | move (delta : Int)
  | adjust (delta : Int)
  | output
  | input
  | jumpIfZero (target : Int)
  | jumpIfNonzero (target : Int)
  | breakpoint
  /-- Something that is no instruction; refused where its meaning is wanted. -/
  | foreign (text : String)
  deriving DecidableEq, Repr

namespace Instruction

def symbol : Instruction → Except Fault Symbol
  | move delta => .ok (if 0 < delta then .right else .left)
  | adjust delta => .ok (if 0 < delta then .increment else .decrement)
  | output => .ok .output
  | input => .ok .input
  | jumpIfZero _ => .ok .loopStart
  | jumpIfNonzero _ => .ok .loopEnd
  | breakpoint => .ok .breakpoint
  | foreign text => .error (.unknownInstruction text)

def target? : Instruction → Option Int
  | jumpIfZero target | jumpIfNonzero target => some target
  | _ => none

/-- The symbol, and where a jump leads. -/
def description (instruction : Instruction) : Except Fault String := do
  let symbol ← instruction.symbol
  return match instruction.target? with
    | some target => s!"{symbol.toChar} (target: {target})"
    | none => symbol.toChar.toString

end Instruction
end Brainfuck
