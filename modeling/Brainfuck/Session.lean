import Brainfuck.Engine
import Brainfuck.Observation

/-! A session drives an engine for somebody who watches: it pauses at
breakpoints, shows the state after each instruction and asks whether to go on.
Its listeners may interrupt it or call it again while it runs; a second call is
refused. A fault leaves the session with all that happened before it. -/

namespace Brainfuck

inductive DebugMode where
  | silent
  | verbose
  | step
  deriving DecidableEq, Repr

namespace DebugMode

def name : DebugMode → String
  | silent => "none"
  | verbose => "verbose"
  | step => "step"

def ofName (name : String) : Except Fault DebugMode :=
  match [silent, verbose, step].find? (·.name == name) with
  | some mode => .ok mode
  | none => .error (.unknownDebugMode name)

end DebugMode

structure Session.Options where
  breakpoints : Bool := true
  mode : DebugMode := .silent
  /-- How many cells are shown on each side of the pointer. -/
  window : Int := 8
  deriving DecidableEq, Repr

structure Session where
  options : Session.Options
  engine : Engine
  active : Bool := false
  /-- Whether it was asked to stop before the next instruction. -/
  interrupted : Bool := false
  status : Status

namespace Session

/-- A session that has executed nothing yet. -/
def start (program : Program) (options : Options := {})
    (tape : Tape := Tape.blank Tape.defaultSize) : Session :=
  let engine := Engine.load program tape
  { options, engine, status := engine.status }

/-- What a session does in a world of listeners. Both are kept if a fault ends it. -/
abbrev Action (World : Type) := ExceptT Fault (StateM (Session × World))

/-- The listeners of a session. Each may change the world, call the session, and
fail. -/
structure Listeners (World : Type) where
  output : UInt8 → Action World Unit
  input : Action World (Option Int)
  observer : Option (Observation → Action World Unit) := none
  /-- Asked in step mode whether to go on. -/
  acknowledge : Option (Observation → Action World Bool) := none

variable {World : Type}

def current : Action World Session := return (← get).1

def update (change : Session → Session) : Action World Unit :=
  modify fun (session, world) => (change session, world)

/-- Ask a run to stop before its next instruction; without one, the next run. -/
def interrupt : Action World Unit := update fun session => { session with interrupted := true }

/-- The state after the instruction executed last. -/
def observe (session : Session) : Option Observation := do
  let engine := session.engine
  let index ← engine.lastIndex
  let instruction ← engine.program.at? index
  let (start, values) := engine.tape.window engine.pointer session.options.window
  some
    { index, instruction
      pointer := engine.pointer
      window := values.map fun value => (value.toNat : Int)
      windowStart := start
      steps := engine.steps }

/-- The observation after an instruction. There is none if the instruction is not in the
program, which only a listener can bring about. -/
def look : Action World Observation := do
  match (← current).observe with
  | some observation => return observation
  | none => throw .outOfRange

/-- Show the state to the observer, unless the mode is silent. The result is what was
shown. -/
def report (listeners : Listeners World) (mode : DebugMode) :
    Action World (Option Observation) := do
  match mode, listeners.observer with
  | .verbose, some observer | .step, some observer =>
    let observation ← look
    observer observation
    return some observation
  | _, _ => return none

/-- Whether to go on after the instruction at an index in step mode: only if
somebody who may be asked agrees. -/
def consult (listeners : Listeners World) (blocking : Bool) (index : Int) (status : Status)
    (shown : Option Observation) : Action World Status := do
  match blocking, listeners.acknowledge with
  | true, some acknowledge =>
    let observation ← shown.getDM look
    if ← acknowledge observation then return status else return .pausedForStep index
  | _, _ => return .pausedForStep index

/-- Whether the session pauses at breakpoints and has executed one. -/
def breaks (session : Session) : Except Fault Bool :=
  if session.options.breakpoints then
    match session.engine.lastIndex with
    | none => .ok false
    | some index =>
      match session.engine.program.at? index with
      | none => .error .outOfRange
      | some instruction => .ok (instruction = .breakpoint)
  else .ok false

/-- The status after the instruction at an index, which left the engine with a status.
A breakpoint comes before the end of the program, and both before a pause of step mode. -/
def settle (listeners : Listeners World) (blocking : Bool) (index : Int) (status : Status)
    (mode : DebugMode) (shown : Option Observation) : Action World Status := do
  match (← current).breaks with
  | .error fault => throw fault
  | .ok true => return .pausedAtBreakpoint index
  | .ok false =>
    if status = .halted then return .halted
    else if mode = .step then consult listeners blocking index status shown
    else return status

/-- What follows the instruction at an index: unless it failed, the state is shown, and
it is decided whether to pause. -/
def attend (listeners : Listeners World) (blocking : Bool) (index : Int) (status : Status) :
    Action World Status := do
  match status with
  | .failed underflow => return .failed underflow
  | _ =>
    let session ← current
    let shown ← report listeners session.options.mode
    settle listeners blocking index status session.options.mode shown

def install (engine : Engine) : Action World Status := do
  update fun session => { session with engine }
  return engine.status

/-- Execute one instruction of the engine, unless it has finished. What a listener changes
of the engine stays changed. -/
def execute (listeners : Listeners World) : Action World Status := do
  let session ← current
  if session.engine.finished then return session.engine.status
  else
    match session.engine.react with
    | .error fault => throw fault
    | .ok (.silent next) => install next
    | .ok (.write value next) => do
      listeners.output value
      install (next (← current).engine)
    | .ok (.read next) => do
      let value ← listeners.input
      match next (← current).engine value with
      | .error fault => throw fault
      | .ok engine => install engine

/-- Execute one instruction, show it and decide whether to pause. -/
def advance (listeners : Listeners World) (blocking : Bool) : Action World Status := do
  let session ← current
  if session.engine.finished then return session.engine.status
  else
    let status ← execute listeners
    attend listeners blocking session.engine.ip status

/-- Run an action that no second one may enter. The status that its result
carries becomes the session's; a fault leaves the status alone. -/
def exclusively {Result : Type} (status? : Result → Option Status)
    (action : Action World Result) : Action World Result :=
  fun (session, world) =>
    if session.active then (.error .alreadyStepping, (session, world))
    else
      match action ({ session with active := true }, world) with
      | (.ok result, (after, world)) =>
        (.ok result,
          ({ after with active := false, status := (status? result).getD after.status }, world))
      | (.error fault, (after, world)) => (.error fault, ({ after with active := false }, world))

def stepOnce (listeners : Listeners World) : Action World Status :=
  exclusively some (advance listeners false)

/-- What ends a run before its next instruction: the end of the engine, or a
request to stop, which is then granted. -/
def boundary : Action World (Option Status) := do
  let session ← current
  if session.engine.finished then return some session.engine.status
  else if session.interrupted then
    update fun session => { session with interrupted := false }
    return some .running
  else return none

/-- Run until something ends the run; no status if the allowance ends it. -/
def run (listeners : Listeners World) : Nat → Action World (Option Status)
  | 0 => boundary
  | allowance + 1 => do
    match ← boundary with
    | some status => return some status
    | none =>
      let status ← advance listeners true
      if status.isPause then return some status else run listeners allowance

def resumeFor (listeners : Listeners World) (count : Nat) : Action World Status :=
  exclusively some ((·.getD .running) <$> run listeners count)

/-- Run without a limit; no status if nothing ends the run within `fuel`
instructions. -/
def resume (listeners : Listeners World) (fuel : Nat) : Action World (Option Status) :=
  exclusively id (run listeners fuel)

end Session
end Brainfuck
