import Brainfuck.Command.Level
import Brainfuck.Session
import Brainfuck.Streams
import Brainfuck.Text.Blank
import Brainfuck.Text.Encoding

/-! The console: standard input, output and error output of a command, and the
operator who answers at prompts. The first prompt takes all of standard input as
text; from then on the program finds it empty. -/

namespace Brainfuck.Command

/-- What was typed and not read yet. -/
structure Typing where
  lines : List (List Char)
  /-- Whether a character is cut off behind the lines. -/
  cut : Bool
  deriving DecidableEq, Repr

structure Console where
  /-- Log messages below it are dropped. -/
  level : Level := .warning
  clock : String
  /-- What the program reads instead of standard input, if anything. -/
  feed : Option Streams := none
  bytes : List UInt8
  /-- What further prompts read, once there was a prompt. -/
  typed : Option Typing := none
  output : String := ""
  errors : String := ""

namespace Console

def print (console : Console) (text : String) : Console :=
  { console with errors := console.errors ++ text }

def putChar (console : Console) (char : Char) : Console :=
  { console with output := console.output.push char }

def log (console : Console) (level : Level) (message : String) : Console :=
  if console.level.rank ≤ level.rank then
    console.print s!"{console.clock} [{level.name}] {message}\n"
  else console

def read (console : Console) : Option Int × Console :=
  match console.feed, console.typed, console.bytes with
  | some streams, _, _ =>
    let (value, rest) := streams.read
    (value, { console with feed := some rest })
  | none, none, byte :: rest => (some (byte.toNat : Int), { console with bytes := rest })
  | none, _, _ => (none, console)

/-- The lines of typed text. The last one may lack its end, unless it is empty. -/
def typedLines (chars : List Char) : List (List Char) :=
  let all := Text.lines (Text.foldNewlines chars)
  if all.getLast? = some [] then all.dropLast else all

/-- The lines of typed text that have an end. A carriage return at the very end
may be half of one. -/
def endedLines (chars : List Char) : List (List Char) :=
  let certain := if chars.getLast? = some '\r' then chars.dropLast else chars
  (Text.lines (Text.foldNewlines certain)).dropLast

/-- What the operator has typed, read as text. A character may be cut off at its
end; the lines before it can be read. -/
def typing (console : Console) : Except Fault Typing :=
  match console.typed with
  | some typing => .ok typing
  | none =>
    match Text.Encoding.decodeFront? console.bytes with
    | none => .error .undecodable
    | some (text, cut) =>
      .ok ⟨if cut then endedLines text.toList else typedLines text.toList, cut⟩

def isQuit (line : List Char) : Bool :=
  let answer := (Text.trim line).map Char.toLower
  answer = ['q'] || answer = ['q', 'u', 'i', 't']

/-- Show a prompt and read a line. Whoever types nothing more agrees to go on. The first
prompt takes all of standard input. It is left out that text is read in chunks of 8192
bytes, and that of a longer input the program would still find what is behind the chunk. -/
def ask (console : Console) (prompt : String) : Except Fault Bool × Console :=
  let shown := console.print prompt
  match shown.typing with
  | .error fault => (.error fault, shown)
  | .ok ⟨line :: rest, cut⟩ =>
    (.ok (!isQuit line), { shown with bytes := [], typed := some ⟨rest, cut⟩ })
  | .ok ⟨[], cut⟩ =>
    (if cut then .error .undecodable else .ok true,
      { shown with bytes := [], typed := some ⟨[], cut⟩ })

end Console

/-- What a session does at a console. -/
abbrev Action := Session.Action Console

namespace Action

def onConsole (change : Console → Console) : Action Unit :=
  modify fun (session, console) => (session, change console)

def read : Action (Option Int) :=
  modifyGet fun (session, console) =>
    let (value, console) := console.read
    (value, session, console)

def ask (prompt : String) : Action Bool := fun (session, console) =>
  let (answer, console) := console.ask prompt
  (answer, session, console)

/-- Show an observation below an empty line. -/
def display (observation : Observation) : Action Unit := do
  let text ← observation.text
  onConsole (·.print s!"\n{text}\n")

end Action

/-- The listeners at a console: output and observations are printed, the operator
is asked after each step. -/
def listeners : Session.Listeners Console where
  output value := Action.onConsole (·.putChar (Char.ofNat value.toNat))
  input := Action.read
  observer := some Action.display
  acknowledge := some fun _ => Action.ask "[step] Enter to continue, q to stop: "

end Brainfuck.Command
