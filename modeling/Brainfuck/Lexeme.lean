import Brainfuck.Text.Blank
import Brainfuck.Token

/-! Lexemes: a program text cut into longest runs of blanks, longest runs of word
characters, braces and call marks. Written one after another they give the text
again. -/

namespace Brainfuck

inductive Lexeme where
  | blank (run : List Char)
  | word (run : List Char)
  | openingBrace
  | closingBrace
  | callMark
  deriving DecidableEq, Repr

namespace Lexeme

def chars : Lexeme → List Char
  | blank run | word run => run
  | openingBrace => ['\x7b']
  | closingBrace => ['\x7d']
  | callMark => [Brainfuck.callMark]

/-- The lexeme of a character alone. -/
def ofChar (char : Char) : Lexeme :=
  if Text.isBlank char then blank [char]
  else if char = '\x7b' then openingBrace
  else if char = '\x7d' then closingBrace
  else if char = Brainfuck.callMark then callMark
  else word [char]

/-- Put a lexeme before others. Runs of the same kind become one. -/
def join : Lexeme → List Lexeme → List Lexeme
  | blank run, blank more :: rest => blank (run ++ more) :: rest
  | word run, word more :: rest => word (run ++ more) :: rest
  | lexeme, following => lexeme :: following

def ofChars (chars : List Char) : List Lexeme :=
  chars.foldr (fun char => join (ofChar char)) []

@[simp]
theorem ofChars_cons (char : Char) (rest : List Char) :
    ofChars (char :: rest) = join (ofChar char) (ofChars rest) := rfl

@[simp]
theorem chars_ofChar (char : Char) : (ofChar char).chars = [char] := by
  unfold ofChar
  repeat' split
  all_goals simp_all [chars]

@[simp]
theorem flatMap_chars_join (lexeme : Lexeme) (following : List Lexeme) :
    (join lexeme following).flatMap chars = lexeme.chars ++ following.flatMap chars := by
  unfold join
  split <;> simp [chars]

/-- Nothing is lost or added by cutting a text up. -/
theorem flatMap_chars_ofChars (text : List Char) : (ofChars text).flatMap chars = text := by
  induction text with
  | nil => rfl
  | cons char rest ih => simp [ih]

end Lexeme
end Brainfuck
