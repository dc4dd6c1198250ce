import Brainfuck.Indexing
import Brainfuck.Instruction
import Brainfuck.Token

/-! Programs: instructions with the positions of their symbols in the text. A
program is made of tokens by pairing each loop start with its loop end. -/

namespace Brainfuck

structure Program where
  instructions : Array Instruction
  offsets : Array Int := #[]
  source : String := ""
  deriving Repr

namespace Program

def size (program : Program) : Nat := program.instructions.size

def at? (program : Program) (index : Int) : Option Instruction :=
  (place? program.size index).bind (program.instructions[·]?)

def instructionAt (program : Program) (index : Int) : Except Fault Instruction :=
  match program.at? index with
  | some instruction => .ok instruction
  | none => .error .outOfRange

/-- Both hold the same instructions at the same positions, from whatever text. -/
def sameCode (first second : Program) : Bool :=
  first.instructions == second.instructions && first.offsets == second.offsets

def jumpTable (program : Program) : List (Nat × Int) :=
  program.instructions.toList.zipIdx.filterMap fun (instruction, index) =>
    instruction.target?.map (index, ·)

def breakpoints (program : Program) : List Nat :=
  program.instructions.toList.zipIdx.filterMap fun (instruction, index) =>
    if instruction = .breakpoint then some index else none

/-- The symbols of the instructions, with no calls and no comments. -/
def flatten (program : Program) : Except Fault String := do
  let symbols ← program.instructions.toList.mapM Instruction.symbol
  return String.ofList (symbols.map Symbol.toChar)

/-- Instructions made so far, and the loops that are open, the innermost first. -/
structure Assembly where
  code : Array Instruction := #[]
  offsets : Array Int := #[]
  pending : List (Nat × Int) := []
  deriving Repr

namespace Assembly

def push (assembly : Assembly) (instruction : Instruction) (offset : Int) : Assembly :=
  { assembly with
    code := assembly.code.push instruction
    offsets := assembly.offsets.push offset }

def reject (source : String) (flaw : Flaw) (offset : Int) : Fault :=
  .build (Diagnostic.report source ⟨flaw, offset⟩)

/-- Add the instruction of a symbol. A loop end gives the loop start that it
closes its target. -/
def addSymbol (assembly : Assembly) (source : String) (symbol : Symbol) (offset : Int) :
    Except Fault Assembly :=
  let index := assembly.code.size
  match symbol with
  | .right => .ok (assembly.push (.move 1) offset)
  | .left => .ok (assembly.push (.move (-1)) offset)
  | .increment => .ok (assembly.push (.adjust 1) offset)
  | .decrement => .ok (assembly.push (.adjust (-1)) offset)
  | .output => .ok (assembly.push .output offset)
  | .input => .ok (assembly.push .input offset)
  | .breakpoint => .ok (assembly.push .breakpoint offset)
  | .loopStart =>
    .ok { assembly.push (.jumpIfZero (-1)) offset with
      pending := (index, offset) :: assembly.pending }
  | .loopEnd =>
    match assembly.pending with
    | [] => .error (reject source (.unmatchedLoopEnd index) offset)
    | (start, _) :: outer =>
      let closed := { assembly with
        code := assembly.code.setIfInBounds start (.jumpIfZero index)
        pending := outer }
      .ok (closed.push (.jumpIfNonzero start) offset)

def addToken (source : String) (assembly : Assembly) (token : Token) : Except Fault Assembly :=
  match token.glyph with
  | .call => .error (.unexpandedCall token.name)
  | .foreign text => .error (.unknownSymbol text)
  | .symbol symbol => assembly.addSymbol source symbol token.offset

/-- The finished program; the innermost loop that is still open is at fault. -/
def finish (assembly : Assembly) (source : String) : Except Fault Program :=
  match assembly.pending with
  | [] => .ok ⟨assembly.code, assembly.offsets, source⟩
  | (start, offset) :: _ => .error (reject source (.unmatchedLoopStart start) offset)

end Assembly

/-- The program of a list of tokens without calls. The text is only shown in
errors. -/
def ofTokens (tokens : List Token) (source : String) : Except Fault Program := do
  let assembly ← tokens.foldlM (Assembly.addToken source) {}
  assembly.finish source

end Program
end Brainfuck
