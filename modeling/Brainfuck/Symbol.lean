namespace Brainfuck

inductive Symbol where
  | right
  | left
  | increment
  | decrement
  | output
  | input
  | loopStart
  | loopEnd
  | breakpoint
  deriving DecidableEq, Repr

namespace Symbol

def toChar : Symbol → Char
  | right => '>'
  | left => '<'
  | increment => '+'
  | decrement => '-'
  | output => '.'
  | input => ','
  | loopStart => '['
  | loopEnd => ']'
  | breakpoint => '#'

/-- The symbol written as a character; every other character is a comment. -/
def ofChar? : Char → Option Symbol
  | '>' => some right
  | '<' => some left
  | '+' => some increment
  | '-' => some decrement
  | '.' => some output
  | ',' => some input
  | '[' => some loopStart
  | ']' => some loopEnd
  | '#' => some breakpoint
  | _ => none

@[simp]
theorem ofChar?_toChar (symbol : Symbol) : ofChar? symbol.toChar = some symbol := by
  cases symbol <;> rfl

theorem toChar_of_ofChar? {char : Char} {symbol : Symbol} (found : ofChar? char = some symbol) :
    symbol.toChar = char := by
  unfold ofChar? at found
  split at found <;> cases found <;> rfl

theorem toChar_injective {first second : Symbol} (same : first.toChar = second.toChar) :
    first = second := by
  have found := ofChar?_toChar first
  rw [same, ofChar?_toChar] at found
  exact (Option.some.inj found).symm

end Symbol
end Brainfuck
