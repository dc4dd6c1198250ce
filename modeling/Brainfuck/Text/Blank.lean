import Brainfuck.Text.CodePoints

namespace Brainfuck.Text

/-- Inclusive ranges of blank code points: controls, spaces and separators. -/
def blankRanges : List (Nat × Nat) :=
  [(0x09, 0x0D), (0x1C, 0x20), (0x85, 0x85), (0xA0, 0xA0), (0x1680, 0x1680), (0x2000, 0x200A),
    (0x2028, 0x2029), (0x202F, 0x202F), (0x205F, 0x205F), (0x3000, 0x3000)]

def isBlank (char : Char) : Bool := inRanges blankRanges char

/-- The text without the characters of a class at both of its ends. -/
def trimBy (test : Char → Bool) (chars : List Char) : List Char :=
  ((chars.dropWhile test).reverse.dropWhile test).reverse

def trim (chars : List Char) : List Char := trimBy isBlank chars

end Brainfuck.Text
