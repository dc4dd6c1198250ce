import Brainfuck.Build
import Brainfuck.Command.Console
import Brainfuck.Command.Files
import Brainfuck.Command.Settings
import Brainfuck.Command.Usage

/-! The command: it reads a file, and runs its program or prints it with its
calls replaced. -/

namespace Brainfuck.Command

/-- How a command ends: with an exit code, or by a fault. -/
inductive Ending where
  | exit (code : Nat)
  | raised (fault : Fault)
  deriving DecidableEq, Repr

structure Outcome where
  ending : Ending
  output : String
  errors : String
  deriving Repr

/-- Log what ended a run of a session that was not finished before. -/
def note (console : Console) (session : Session) : Status → Console
  | .pausedAtBreakpoint index => console.log .debug s!"breakpoint hit at instruction {index}"
  | .halted => console.log .debug s!"halted after {session.engine.steps} steps"
  | .failed underflow =>
    console.log .info
      (s!"execution failed at instruction {underflow.instruction}: " ++ underflow.message)
  | .running | .pausedForStep _ => console

/-- Resume with an allowance if there is one. An empty one is only looked at if
there is something to execute. -/
def resume (limit : Option (Value Int)) (fuel : Nat) : Action (Option Status) :=
  match limit with
  | some (.given count) => some <$> Session.resumeFor listeners count.toNat
  | some .empty => do
    let session ← Session.current
    if session.engine.finished then Session.resume listeners fuel else throw .emptyLimit
  | none => Session.resume listeners fuel

/-- Resume a session and say what ended the run. -/
def burst (limit : Option (Value Int)) (fuel : Nat) : Action (Option Status) := do
  let before ← Session.current
  let status? ← resume limit fuel
  match status? with
  | some status =>
    if !before.engine.finished then
      let after ← Session.current
      Action.onConsole (note · after status)
    return some status
  | none => return none

def stoppedText : Option (Value Int) → String
  | some (.given count) => s!"\nStopped after {count} steps\n"
  | some .empty | none => "\nStopped\n"

/-- Run a session to its exit code. At each breakpoint the operator may stop it.
There is no exit code if the run takes longer than `fuel`. -/
def drive (limit : Option (Value Int)) (fuel : Nat) : Nat → Action (Option Nat)
  | 0 => return none
  | rounds + 1 => do
    match ← burst limit fuel with
    | none => return none
    | some .halted => return some 0
    | some (.failed underflow) =>
      Action.onConsole (·.print ("\nRuntime error: " ++ underflow.message ++ "\n"))
      return some 1
    | some .running =>
      Action.onConsole (·.print (stoppedText limit))
      return some 3
    | some (.pausedForStep _) => return some 0
    | some (.pausedAtBreakpoint index) =>
      if let some observation := (← Session.current).observe then Action.display observation
      let prompt := s!"[{(Status.pausedAtBreakpoint index).text}] Enter to resume, q to stop: "
      if ← Action.ask prompt then drive limit fuel rounds else return some 0

def load (console : Console) (source : String) : Except Fault Program × Console :=
  match Scan.ofSource source with
  | .error diagnostic => (.error (.build (diagnostic.report source)), console)
  | .ok scan =>
    match scan.flatten with
    | .error diagnostic => (.error (.build (diagnostic.report source)), console)
    | .ok tokens =>
      let console := console.log .debug
        (s!"preprocessed {scan.tokens.length} tokens " ++
          s!"({scan.table.definitions.length} macros) into {tokens.length} tokens")
      match Program.ofTokens tokens source with
      | .error fault => (.error fault, console)
      | .ok program =>
        (.ok program, console.log .debug
          (s!"built program with {program.size} instructions, " ++
            s!"{program.breakpoints.length} breakpoints"))

def Settings.mode (settings : Settings) : DebugMode :=
  if settings.verbose then .verbose else if settings.step then .step else .silent

def Settings.options (settings : Settings) : Except Fault Session.Options :=
  match settings.window with
  | .given window =>
    .ok { breakpoints := settings.breakpoints, mode := settings.mode, window := max 0 window }
  | .empty => .error .emptyWindow

def Settings.level (settings : Settings) : Except Fault Level :=
  match settings.logLevel with
  | .given name => Level.ofName name
  | .empty => .error .emptyLevel

/-- What the program reads, unless it reads standard input. -/
def Settings.data (settings : Settings) : Option InputData :=
  settings.input.map fun
    | .given text => .ofText text
    | .empty => .ofValues []

/-- The console once it is known what the program reads. -/
def connect (settings : Settings) (console : Console) : Except Fault Console :=
  match settings.data with
  | none => .ok console
  | some data => do return { console with feed := some { input := ← data.reads } }

def finish (console : Console) (ending : Ending) : Outcome :=
  ⟨ending, console.output, console.errors⟩

def execute (settings : Settings) (program : Program) (console : Console) (fuel : Nat) :
    Option Outcome :=
  match settings.options, connect settings console with
  | .error fault, _ | _, .error fault => some (finish console (.raised fault))
  | .ok options, .ok console =>
    let console := console.log .info s!"running {settings.file} ({program.size} instructions)"
    let session := Session.start program options
    match drive settings.maxSteps fuel fuel (session, console) with
    | (.ok none, _) => none
    | (.ok (some code), (_, console)) => some (finish console (.exit code))
    | (.error fault, (_, console)) => some (finish console (.raised fault))

def expand (program : Program) (console : Console) : Outcome :=
  match program.flatten with
  | .error fault => finish console (.raised fault)
  | .ok symbols => finish { console with output := console.output ++ symbols ++ "\n" } (.exit 0)

/-- Do what the settings say with the contents of the file. -/
def process (settings : Settings) (contents : ByteArray) (console : Console) (fuel : Nat) :
    Option Outcome :=
  match sourceOfFile .utf8 contents with
  | .error fault => some (finish console (.raised fault))
  | .ok source =>
    match load console source with
    | (.error (.build error), console) =>
      some (finish (console.print (error.message ++ "\n")) (.exit 2))
    | (.error fault, console) => some (finish console (.raised fault))
    | (.ok program, console) =>
      if settings.expand then some (expand program console)
      else execute settings program console fuel

/-- Run the command with its arguments, where a path leads to what is found there.
There is no outcome if it takes longer than `fuel`. -/
def run (lookUp : String → Entry) (arguments : List String) (input : ByteArray) (clock : String)
    (fuel : Nat) : Option Outcome :=
  match Settings.ofArguments arguments with
  | .error .help => some ⟨.exit 0, help, ""⟩
  | .error (.misuse message) => some ⟨.exit 2, "", usageError message⟩
  | .ok settings =>
    match settings.level with
    | .error fault => some ⟨.raised fault, "", ""⟩
    | .ok level =>
      let console : Console := { level, clock, bytes := input.toList }
      match lookUp settings.file with
      | .missing =>
        some (finish (console.print s!"Couldn't find file: {settings.file}\n") (.exit 1))
      | .directory => some (finish console (.raised (.isDirectory settings.file)))
      | .obstructed => some (finish console (.raised (.notDirectory settings.file)))
      | .tooLong => some (finish console (.raised (.pathTooLong settings.file)))
      | .invalid => some (finish console (.raised (.invalidPath settings.file)))
      | .file contents => process settings contents console fuel

end Brainfuck.Command
