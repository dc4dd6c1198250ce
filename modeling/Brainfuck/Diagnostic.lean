import Brainfuck.ErrorKind
import Brainfuck.Text.Lines

namespace Brainfuck

inductive Flaw where
  | duplicateDefinition (name : String)
  | unterminatedBody (name : String)
  | malformedCall
  | nestedDefinition (outer : String)
  | namelessDefinition
  | strayClosingBrace
  /-- A call may lack a name; such a call is never defined. -/
  | undefinedMacro (name : Option String)
  /-- The open calls from the one that is called again, then that one once more. -/
  | recursiveCall (chain : List String)
  | unmatchedLoopStart (position : Nat)
  | unmatchedLoopEnd (position : Nat)
  deriving DecidableEq, Repr

/-- The name that is shown for a call without one. -/
def absentName : String := "None"

namespace Flaw

def kind : Flaw → ErrorKind
  | duplicateDefinition _ => .duplicateMacroDefinition
  | unterminatedBody _ => .unterminatedMacroBody
  | malformedCall | nestedDefinition _ | namelessDefinition | strayClosingBrace => .malformedMacro
  | undefinedMacro _ => .undefinedMacro
  | recursiveCall _ => .recursiveMacroCall
  | unmatchedLoopStart _ | unmatchedLoopEnd _ => .unmatchedBracket

def headline : Flaw → String
  | duplicateDefinition name => s!"Macro '{name}' is already defined"
  | unterminatedBody name => s!"Macro '{name}' is missing its closing '\x7d'"
  | malformedCall => "Malformed macro call, expected @name@"
  | nestedDefinition outer => s!"Nested macro definition inside '{outer}'"
  | namelessDefinition => "Macro definition without a name"
  | strayClosingBrace => "Unexpected '\x7d' outside a macro definition"
  | undefinedMacro name => "Undefined macro '" ++ name.getD absentName ++ "'"
  | recursiveCall chain => "Recursive macro call: " ++ " -> ".intercalate chain
  | unmatchedLoopStart position => s!"Unmatched '[' at instruction {position}"
  | unmatchedLoopEnd position => s!"Unmatched ']' at instruction {position}"

end Flaw

structure Diagnostic where
  flaw : Flaw
  offset : Int
  deriving DecidableEq, Repr

/-- What an error says besides its text. -/
inductive BuildError.Detail where
  | name (name : Option String)
  | chain (names : List String)
  | position (index : Nat)
  | nothing
  deriving DecidableEq, Repr

def Flaw.detail : Flaw → BuildError.Detail
  | duplicateDefinition name | unterminatedBody name => .name (some name)
  | undefinedMacro name => .name name
  | recursiveCall chain => .chain chain
  | unmatchedLoopStart position | unmatchedLoopEnd position => .position position
  | malformedCall | nestedDefinition _ | namelessDefinition | strayClosingBrace => .nothing

structure BuildError where
  kind : ErrorKind
  headline : String
  line : Nat
  excerpt : String
  detail : BuildError.Detail
  deriving DecidableEq, Repr

namespace BuildError

/-- How many lines are shown on each side of the line meant. -/
def linesAround : Int := 2

/-- An error at a position of a text. -/
def locate (source : String) (offset : Int) (kind : ErrorKind) (headline : String)
    (detail : Detail) : BuildError :=
  let line := Text.lineOf source.toList offset
  let all := (Text.lines source.toList).map String.ofList
  { kind, headline, line, excerpt := Text.excerpt all line linesAround, detail }

/-- The headline with its line, the excerpt, and the hint if the kind has one. -/
def message (error : BuildError) : String :=
  let advice := match error.kind.hint with
    | some hint => "\nHint: " ++ hint
    | none => ""
  s!"{error.kind.name}: {error.headline} (line {error.line})\n" ++ error.excerpt ++ advice

/-- The detail of an error about which nothing more is known; none for a kind
that no program text can cause. -/
def Detail.blank? : ErrorKind → Option Detail
  | .duplicateMacroDefinition | .unterminatedMacroBody | .undefinedMacro => some (.name (some ""))
  | .recursiveMacroCall => some (.chain [])
  | .unmatchedBracket => some (.position 0)
  | .malformedMacro => some .nothing
  | .pointerUnderflow => none

end BuildError

/-- The diagnostic as the author of the text sees it. -/
def Diagnostic.report (source : String) (diagnostic : Diagnostic) : BuildError :=
  .locate source diagnostic.offset diagnostic.flaw.kind diagnostic.flaw.headline
    diagnostic.flaw.detail

end Brainfuck
