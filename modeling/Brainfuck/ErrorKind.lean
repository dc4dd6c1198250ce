namespace Brainfuck

inductive ErrorKind where
  | duplicateMacroDefinition
  | unterminatedMacroBody
  | undefinedMacro
  | recursiveMacroCall
  | unmatchedBracket
  | malformedMacro
  | pointerUnderflow
  deriving DecidableEq, Repr

namespace ErrorKind

def all : List ErrorKind :=
  [duplicateMacroDefinition, unterminatedMacroBody, undefinedMacro, recursiveMacroCall,
    unmatchedBracket, malformedMacro, pointerUnderflow]

def name : ErrorKind → String
  | duplicateMacroDefinition => "DuplicateMacroDefinition"
  | unterminatedMacroBody => "UnterminatedMacroBody"
  | undefinedMacro => "UndefinedMacro"
  | recursiveMacroCall => "RecursiveMacroCall"
  | unmatchedBracket => "UnmatchedBracket"
  | malformedMacro => "MalformedMacro"
  | pointerUnderflow => "PointerUnderflow"

def ofName? (name : String) : Option ErrorKind :=
  all.find? fun kind => kind.name == name

/-- What the author may look at first. -/
def hint : ErrorKind → Option String
  | recursiveMacroCall =>
    some "Macros may call other macros but never themselves, directly or through a chain."
  | unterminatedMacroBody => some "Check for a missing closing \"\x7d\" in a macro definition."
  | undefinedMacro =>
    some ("Define the macro with: name \x7b body \x7d and check spelling " ++
      "(names are case-sensitive).")
  | unmatchedBracket =>
    some "Every \"[\" needs a matching \"]\", including brackets coming from macro bodies."
  | malformedMacro =>
    some "Definitions look like: name \x7b body \x7d. Calls look like: @name@."
  | duplicateMacroDefinition | pointerUnderflow => none

end ErrorKind
end Brainfuck
