import Brainfuck.Program
import Brainfuck.Status
import Brainfuck.Tape

/-! The engine executes a program one instruction at a time. What an instruction
does is a pure reaction: a next engine, after a value is written or with a value
that is read. How values are written and read is left to whoever drives it. -/

namespace Brainfuck

structure Engine where
  program : Program
  tape : Tape
  pointer : Int := 0
  /-- The index of the next instruction. -/
  ip : Int := 0
  steps : Nat := 0
  status : Status
  /-- The index of the instruction attempted last. -/
  lastIndex : Option Int := none

namespace Engine

/-- An engine that has executed nothing yet. -/
def load (program : Program) (tape : Tape) : Engine :=
  { program, tape
    status := if program.size = 0 then .halted else .running }

def finished (engine : Engine) : Bool := engine.status.isFinal

def lastInstruction? (engine : Engine) : Option Instruction :=
  engine.lastIndex.bind engine.program.at?

def cell (engine : Engine) : Except Fault UInt8 := engine.tape.get engine.pointer

/-- The current instruction is done and the one at an index is next. At the end
of the program the engine halts. -/
def proceed (engine : Engine) (next : Int) : Engine :=
  { engine with
    ip := next
    steps := engine.steps + 1
    lastIndex := some engine.ip
    status := if engine.program.size ≤ next then .halted else engine.status }

/-- The pointer cannot move further left; nothing but the status changes. -/
def fail (engine : Engine) : Engine :=
  { engine with
    lastIndex := some engine.ip
    status := .failed ⟨engine.ip, engine.pointer⟩ }

/-- What executing an instruction leads to. Whoever writes or reads may change the
engine meanwhile, and the next engine is made of what he leaves. -/
inductive Reaction where
  | silent (next : Engine)
  | write (value : UInt8) (next : Engine → Engine)
  /-- The next engine depends on the value read; there may be none. -/
  | read (next : Engine → Option Int → Except Fault Engine)

def move (engine : Engine) (delta : Int) : Engine :=
  if engine.pointer + delta < 0 then engine.fail
  else
    let pointer := engine.pointer + delta
    { engine with pointer, tape := engine.tape.touch pointer }.proceed (engine.ip + 1)

/-- Store a value that was read; without one the cell stays as it is. -/
def receive (engine : Engine) : Option Int → Except Fault Engine
  | none => .ok (engine.proceed (engine.ip + 1))
  | some value => do
    let tape ← engine.tape.set engine.pointer value
    return { engine with tape }.proceed (engine.ip + 1)

def adjust (engine : Engine) (delta : Int) : Except Fault Engine := do
  let (_, tape) ← engine.tape.add engine.pointer delta
  return { engine with tape }.proceed (engine.ip + 1)

/-- Continue behind a target if the cell passes a test, else with the next
instruction. -/
def jump (engine : Engine) (target : Int) (test : UInt8 → Bool) : Except Fault Engine := do
  let cell ← engine.cell
  return engine.proceed (if test cell then target + 1 else engine.ip + 1)

def react (engine : Engine) : Except Fault Reaction :=
  match engine.program.at? engine.ip with
  | none => .error .outOfRange
  | some (.adjust delta) => .silent <$> engine.adjust delta
  | some (.move delta) => .ok (.silent (engine.move delta))
  | some (.jumpIfZero target) => .silent <$> engine.jump target (· == 0)
  | some (.jumpIfNonzero target) => .silent <$> engine.jump target (· != 0)
  | some .output => do
    return .write (← engine.cell) fun left =>
      { left with ip := engine.ip }.proceed (engine.ip + 1)
  | some .input => .ok (.read fun left => { left with ip := engine.ip }.receive)
  | some .breakpoint => .ok (.silent (engine.proceed (engine.ip + 1)))
  | some (.foreign text) => .error (.unknownInstruction text)

/-- Execute one instruction, unless the engine has finished, with ways to write and
to read a value that leave the engine alone. -/
@[specialize]
def step {m : Type → Type} [Monad m] [MonadExceptOf Fault m] (write : UInt8 → m Unit)
    (read : m (Option Int)) (engine : Engine) : m Engine :=
  if engine.finished then pure engine
  else
    match engine.react with
    | .error fault => throw fault
    | .ok (.silent next) => pure next
    | .ok (.write value next) => do
      write value
      pure (next engine)
    | .ok (.read next) => do
      match next engine (← read) with
      | .error fault => throw fault
      | .ok engine => pure engine

end Engine
end Brainfuck
