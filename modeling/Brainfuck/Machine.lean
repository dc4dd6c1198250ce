import Brainfuck.Engine
import Brainfuck.Streams

/-! A machine is an engine whose input and output are held in memory. A fault
leaves it as it was before the instruction that caused it, except for input that
was read. -/

namespace Brainfuck

structure Machine where
  engine : Engine
  streams : Streams

namespace Machine

def load (program : Program) (input : List (Option Int))
    (tape : Tape := Tape.blank Tape.defaultSize) : Machine :=
  { engine := Engine.load program tape, streams := { input } }

/-- What a machine does. It is kept if a fault ends it. -/
abbrev Action := ExceptT Fault (StateM Machine)

def read : Action (Option Int) :=
  modifyGet fun machine =>
    let (value, streams) := machine.streams.read
    (value, { machine with streams })

def write (value : UInt8) : Action Unit :=
  modify fun machine => { machine with streams := machine.streams.write value }

def status : Action Status := return (← get).engine.status

def step : Action Status := do
  let engine ← (← get).engine.step write read
  modify fun machine => { machine with engine }
  return engine.status

/-- Execute instructions up to a number, or until the engine has finished. The
result says whether it has. -/
def run : Nat → Action Bool
  | 0 => return (← get).engine.finished
  | count + 1 => do
    if (← get).engine.finished then return true
    else
      let _ ← step
      run count

def runFor (count : Nat) : Action Status := do
  let _ ← run count
  status

/-- Run to the end; no status if the end is more than `fuel` instructions away. -/
def runToEnd (fuel : Nat) : Action (Option Status) := do
  if ← run fuel then return some (← status) else return none

end Machine
end Brainfuck
