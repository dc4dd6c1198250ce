import Brainfuck.Diagnostic
import Brainfuck.Text.Quoted

namespace Brainfuck

/-- What a name may stand for in the place of a level of log messages. -/
inductive NoLevel where
  | text (text : String)
  /-- A table, as it is shown. -/
  | table (shown : String)
  deriving DecidableEq, Repr

inductive Fault where
  | build (error : BuildError)
  /-- A call reached the point where instructions are made. -/
  | unexpandedCall (name : Option String)
  | unknownSymbol (text : String)
  | unknownInstruction (text : String)
  | outOfRange
  /-- A session was told to run while it was running. -/
  | alreadyStepping
  | raised (message : String)
  | unknownErrorKind (name : String)
  | unknownDebugMode (name : String)
  /-- No program text can cause an error of this kind. -/
  | noBuildError (kind : ErrorKind)
  /-- A value that is no character. -/
  | noCharacter (value : Int)
  /-- A value beyond what is looked at at all. -/
  | overflow (value : Int)
  | tooManyCells (size : Nat)
  | outOfMemory (size : Nat)
  | unencodable
  /-- Bytes that are no text in an encoding. -/
  | undecodable
  | isDirectory (path : String)
  /-- A path that leads through a file as if it were a directory. -/
  | notDirectory (path : String)
  /-- A path longer than any, or with a longer name in it than any. -/
  | pathTooLong (path : String)
  /-- A path with a character that no path can hold. -/
  | invalidPath (path : String)
  /-- The number of instructions to run was left empty. -/
  | emptyLimit
  /-- The number of cells to show was left empty. -/
  | emptyWindow
  /-- The level of log messages was left empty. -/
  | emptyLevel
  /-- What was named as a level of log messages is something else. -/
  | noLevel (found : NoLevel)
  deriving DecidableEq, Repr

/-- The text of a fault; some faults have none. -/
def Fault.message? : Fault → Option String
  | build error => some error.message
  | unexpandedCall name =>
    some ("Unexpanded macro call @" ++ name.getD absentName ++ "@")
  | unknownInstruction text => some ("Unknown instruction: " ++ Text.quoted text)
  | alreadyStepping => some "Session is already stepping"
  | raised message => some message
  | unknownErrorKind name => some (Text.quoted name ++ " is not a valid ErrorKind")
  | unknownDebugMode name => some (Text.quoted name ++ " is not a valid DebugMode")
  | tooManyCells _ => some "Maximum allowed dimension exceeded"
  | invalidPath _ => some "embedded null byte"
  | emptyLimit => some "'>=' not supported between instances of 'int' and 'list'"
  | emptyWindow => some "'>' not supported between instances of 'list' and 'int'"
  | emptyLevel => some "'list' object has no attribute 'upper'"
  | noLevel (.text text) => some ("Unknown level: " ++ Text.quoted text)
  | noLevel (.table shown) => some ("Level not an integer or a valid string: " ++ shown)
  | noCharacter _ => some "chr() arg not in range(0x110000)"
  | unknownSymbol _ | outOfRange | noBuildError _ | overflow _ | outOfMemory _ | unencodable
  | undecodable | isDirectory _ | notDirectory _ | pathTooLong _ => none

/-- An error of a kind given by its name, with nothing known but its headline. -/
def BuildError.ofKindName (name headline source : String) (offset : Int) :
    Except Fault BuildError :=
  match ErrorKind.ofName? name with
  | none => .error (.unknownErrorKind name)
  | some kind =>
    match Detail.blank? kind with
    | none => .error (.noBuildError kind)
    | some detail => .ok (locate source offset kind headline detail)

end Brainfuck
