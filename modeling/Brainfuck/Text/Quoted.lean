import Brainfuck.Text.Printable

namespace Brainfuck.Text

/-- Lower-case hexadecimal digits of a number, at least `width` of them. -/
def hexadecimal (width number : Nat) : List Char :=
  (Nat.toDigits 16 number).leftpad width '0'

def quoteFor (chars : List Char) : Char :=
  if '\'' ∈ chars ∧ '"' ∉ chars then '"' else '\''

def escaped (quote char : Char) : List Char :=
  if char = quote ∨ char = '\\' then ['\\', char]
  else if char = '\t' then ['\\', 't']
  else if char = '\n' then ['\\', 'n']
  else if char = '\r' then ['\\', 'r']
  else if isPrintable char then [char]
  else if char.toNat < 0x100 then '\\' :: 'x' :: hexadecimal 2 char.toNat
  else if char.toNat < 0x10000 then '\\' :: 'u' :: hexadecimal 4 char.toNat
  else '\\' :: 'U' :: hexadecimal 8 char.toNat

def quotedChars (chars : List Char) : List Char :=
  let quote := quoteFor chars
  quote :: chars.flatMap (escaped quote) ++ [quote]

def quoted (text : String) : String := String.ofList (quotedChars text.toList)

end Brainfuck.Text
