import Brainfuck.Command.Flag
import Brainfuck.Text.Quoted

namespace Brainfuck.Command

/-- The value of a flag. A lone separator in its place leaves it empty. -/
inductive Value (Content : Type) where
  | given (content : Content)
  | empty
  deriving DecidableEq, Repr

structure Settings where
  file : String
  input : Option (Value String) := none
  breakpoints : Bool := true
  verbose : Bool := false
  step : Bool := false
  window : Value Int := .given 8
  maxSteps : Option (Value Int) := none
  expand : Bool := false
  logLevel : Value String := .given "warning"
  deriving DecidableEq, Repr

/-- Why a command line gives no settings. -/
inductive Refusal where
  /-- The explanation was asked for. -/
  | help
  | misuse (message : String)
  deriving DecidableEq, Repr

namespace Settings

/-- What has been read of a command line. The file may still be missing. -/
structure Partial where
  settings : Settings := { file := "" }
  file : Option String := none
  /-- Words that nothing asked for. -/
  extras : Array String := #[]
  deriving Repr

def misuse (flag : Flag) (message : String) : Refusal :=
  .misuse s!"argument {flag.label}: {message}"

def text (value : String) : Value String :=
  if value = Word.separatorText then .empty else .given value

def integer (flag : Flag) (value : String) : Except Refusal (Value Int) :=
  if value = Word.separatorText then .ok .empty
  else
    match Text.integer? value with
    | some number => .ok (.given number)
    | none => .error (misuse flag ("invalid int value: " ++ Text.quoted value))

/-- A value for a flag that takes none. -/
def ignored (flag : Flag) (value : String) : Refusal :=
  misuse flag ("ignored explicit argument " ++ Text.quoted value)

def notAllowedWith (flag other : Flag) : Refusal :=
  misuse flag s!"not allowed with argument {other.label}"

/-- A flag without a value is on. -/
def raise (settings : Settings) (flag : Flag) : Except Refusal Settings :=
  match flag with
  | .help => .error .help
  | .breakpoints => .ok { settings with breakpoints := true }
  | .noBreakpoints => .ok { settings with breakpoints := false }
  | .verbose =>
    if settings.step then .error (notAllowedWith .verbose .step)
    else .ok { settings with verbose := true }
  | .step =>
    if settings.verbose then .error (notAllowedWith .step .verbose)
    else .ok { settings with step := true }
  | .expand => .ok { settings with expand := true }
  | .input | .window | .maxSteps | .logLevel => .error (misuse flag "expected one argument")

/-- A flag is on with a value. -/
def assign (settings : Settings) (flag : Flag) (value : String) : Except Refusal Settings :=
  match flag with
  | .input => .ok { settings with input := some (text value) }
  | .logLevel => .ok { settings with logLevel := text value }
  | .window => do return { settings with window := ← integer flag value }
  | .maxSteps => do return { settings with maxSteps := some (← integer flag value) }
  | .help | .breakpoints | .noBreakpoints | .verbose | .step | .expand =>
    .error (ignored flag value)

/-- The flags of a cluster: each character behind a short flag is one more. -/
def clustered (flag : Flag) : List Char → Except Refusal (List Flag)
  | [] => .error (ignored flag "")
  | first :: following =>
    match Flag.ofSpelling? (String.ofList ['-', first]), following with
    | none, _ => .error (ignored flag (String.ofList (first :: following)))
    | some next, [] => .ok [flag, next]
    | some next, _ => do return flag :: (← clustered next following)

/-- Read words from left to right. The first value that no flag takes is the
file; a separator beside it belongs to it. -/
def read (state : Partial) : List Word → Except Refusal Partial
  | [] => .ok state
  | .value text :: .separator :: rest =>
    if state.file.isNone then read { state with file := some text } rest
    else read { state with extras := state.extras ++ [text, Word.separatorText] } rest
  | .value text :: rest =>
    if state.file.isNone then read { state with file := some text } rest
    else read { state with extras := state.extras.push text } rest
  | .separator :: .value text :: rest =>
    if state.file.isNone then read { state with file := some text } rest
    else read { state with extras := state.extras ++ [Word.separatorText, text] } rest
  | .separator :: rest =>
    read { state with extras := state.extras.push Word.separatorText } rest
  | .unknown text :: rest => read { state with extras := state.extras.push text } rest
  | .cluster flag following :: rest => do
    let settings ← (← clustered flag following).foldlM raise state.settings
    read { state with settings } rest
  | .flag flag (some value) :: rest => do
    let settings ← state.settings.assign flag value
    read { state with settings } rest
  | .flag flag none :: .value text :: rest =>
    if flag.takesValue then do
      let settings ← state.settings.assign flag text
      read { state with settings } rest
    else do
      let settings ← state.settings.raise flag
      read { state with settings } (.value text :: rest)
  | .flag flag none :: rest => do
    let settings ← state.settings.raise flag
    read { state with settings } rest

/-- The settings of a command line. -/
def ofArguments (arguments : List String) : Except Refusal Settings :=
  match Word.ofTexts arguments with
  | .error message => .error (.misuse message)
  | .ok words => do
    let state ← read {} words
    match state.file with
    | none => .error (.misuse "the following arguments are required: file")
    | some file =>
      if state.extras.isEmpty then return { state.settings with file }
      else
        .error (.misuse ("unrecognized arguments: " ++
          " ".intercalate state.extras.toList))

end Settings
end Brainfuck.Command
