import Brainfuck.Fault

namespace Brainfuck

/-- A move to the left of cell 0, by an instruction, from a pointer. -/
structure Underflow where
  instruction : Int
  pointer : Int
  deriving DecidableEq, Repr

def Underflow.message (underflow : Underflow) : String :=
  ErrorKind.pointerUnderflow.name ++
    s!": pointer moved left of cell 0 (instruction {underflow.instruction})"

inductive Status where
  | running
  | halted
  | pausedAtBreakpoint (index : Int)
  | pausedForStep (index : Int)
  | failed (underflow : Underflow)
  deriving DecidableEq, Repr

namespace Status

/-- Nothing is executed any more. -/
def isFinal : Status → Bool
  | halted | failed _ => true
  | running | pausedAtBreakpoint _ | pausedForStep _ => false

def isPause : Status → Bool
  | pausedAtBreakpoint _ | pausedForStep _ => true
  | running | halted | failed _ => false

def text : Status → String
  | halted => "halted"
  | running => "running"
  | pausedAtBreakpoint index => s!"paused at breakpoint {index}"
  | pausedForStep index => s!"paused after instruction {index}"
  | failed underflow => "failed: " ++ underflow.message

end Status
end Brainfuck
