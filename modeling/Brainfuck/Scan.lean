import Brainfuck.Lexeme
import Brainfuck.Macro.Table

/-! Reading a program text. A call is a word between call marks; a word before an
opening brace names a macro whose body runs to the next closing brace; any other
word gives a token for each symbol in it and is otherwise a comment. -/

namespace Brainfuck

/-- The tokens outside all definitions, and the definitions. -/
structure Scan where
  tokens : List Token
  table : Macro.Table
  deriving DecidableEq, Repr

namespace Scan

structure Opening where
  name : String
  offset : Nat
  body : Array Token := #[]
  deriving DecidableEq, Repr

structure State where
  tokens : Array Token := #[]
  definitions : Array Macro.Definition := #[]
  opening : Option Opening := none
  deriving DecidableEq, Repr

namespace State

/-- Add tokens to the body that is being read, or to the text outside bodies. -/
def emit (state : State) (tokens : List Token) : State :=
  match state.opening with
  | none => { state with tokens := state.tokens ++ tokens }
  | some opening => { state with opening := some { opening with body := opening.body ++ tokens } }

/-- Begin the body of a name that has none yet. -/
def define (state : State) (name : String) (offset : Nat) : Except Diagnostic State :=
  if state.definitions.any (·.name == name) then
    .error ⟨.duplicateDefinition name, offset⟩
  else .ok { state with opening := some { name, offset } }

/-- End the body that is being read. -/
def close (state : State) (opening : Opening) : State :=
  { state with
    definitions := state.definitions.push ⟨opening.name, opening.body.toList, opening.offset⟩
    opening := none }

end State

/-- The symbols of a word; its other characters are comments. -/
def wordTokens (offset : Nat) (run : List Char) : List Token :=
  (run.zipIdx offset).filterMap fun (char, index) =>
    (Symbol.ofChar? char).map (Token.ofSymbol · index)

theorem wordTokens_cons (offset : Nat) (char : Char) (run : List Char) :
    wordTokens offset (char :: run) =
      ((Symbol.ofChar? char).map (Token.ofSymbol · offset)).toList ++
        wordTokens (offset + 1) run := by
  simp only [wordTokens, List.zipIdx_cons, List.filterMap_cons]
  cases Symbol.ofChar? char <;> rfl

def readFrom (state : State) (offset : Nat) (lexemes : List Lexeme) : Except Diagnostic Scan :=
  match lexemes, state.opening with
  | [], none => .ok ⟨state.tokens.toList, ⟨state.definitions.toList⟩⟩
  | [], some opening => .error ⟨.unterminatedBody opening.name, opening.offset⟩
  | .blank run :: rest, _ => readFrom state (offset + run.length) rest
  | .callMark :: .word run :: .callMark :: rest, _ =>
    readFrom (state.emit [Token.callOf (String.ofList run) offset]) (offset + run.length + 2) rest
  | .callMark :: _, _ => .error ⟨.malformedCall, offset⟩
  | .openingBrace :: _, none => .error ⟨.namelessDefinition, offset⟩
  | .openingBrace :: _, some opening => .error ⟨.nestedDefinition opening.name, offset⟩
  | .closingBrace :: _, none => .error ⟨.strayClosingBrace, offset⟩
  | .closingBrace :: rest, some opening => readFrom (state.close opening) (offset + 1) rest
  | .word run :: .openingBrace :: rest, none =>
    match state.define (String.ofList run) offset with
    | .error diagnostic => .error diagnostic
    | .ok opened => readFrom opened (offset + run.length + 1) rest
  | .word run :: .blank gap :: .openingBrace :: rest, none =>
    match state.define (String.ofList run) offset with
    | .error diagnostic => .error diagnostic
    | .ok opened => readFrom opened (offset + run.length + gap.length + 1) rest
  | .word run :: rest, _ =>
    readFrom (state.emit (wordTokens offset run)) (offset + run.length) rest

def ofSource (source : String) : Except Diagnostic Scan :=
  readFrom {} 0 (Lexeme.ofChars source.toList)

end Scan
end Brainfuck
