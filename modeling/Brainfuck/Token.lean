import Brainfuck.Diagnostic
import Brainfuck.Symbol

namespace Brainfuck

/-- What a token stands for. Text that is neither a symbol nor a call is kept,
and is refused only where instructions are made of it. -/
inductive Glyph where
  | symbol (symbol : Symbol)
  | call
  | foreign (text : String)
  deriving DecidableEq, Repr

/-- The character before and after the name in a call. -/
def callMark : Char := '@'

namespace Glyph

def text : Glyph → String
  | .symbol value => value.toChar.toString
  | .call => callMark.toString
  | .foreign words => words

/-- The glyph that is written as a text. -/
def ofText (text : String) : Glyph :=
  match text.toList with
  | [char] =>
    if char = callMark then .call
    else ((Symbol.ofChar? char).map .symbol).getD (.foreign text)
  | _ => .foreign text

end Glyph

/-- Only calls use their name, but any token may carry one along. -/
structure Token where
  glyph : Glyph
  offset : Int
  name : Option String := none
  deriving DecidableEq, Repr

namespace Token

def ofSymbol (symbol : Symbol) (offset : Int) : Token := ⟨.symbol symbol, offset, none⟩

def callOf (name : String) (offset : Int) : Token := ⟨.call, offset, some name⟩

def isCall (token : Token) : Bool := token.glyph == .call

/-- A call shows its name between call marks, any other token its own text. -/
def text (token : Token) : String :=
  match token.glyph with
  | .call => callMark.toString ++ token.name.getD absentName ++ callMark.toString
  | .symbol _ | .foreign _ => token.glyph.text

def format (tokens : List Token) : String :=
  String.join (tokens.map text)

end Token
end Brainfuck
