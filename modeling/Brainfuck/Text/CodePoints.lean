namespace Brainfuck.Text

/-- Whether one of the inclusive ranges holds the code point of a character. -/
def inRanges (ranges : List (Nat × Nat)) (char : Char) : Bool :=
  ranges.any fun range => range.1 ≤ char.toNat && char.toNat ≤ range.2

end Brainfuck.Text
