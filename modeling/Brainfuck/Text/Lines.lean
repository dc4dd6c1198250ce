import Brainfuck.Text.Field

namespace Brainfuck.Text

/-- The parts between line feeds; a text without one is a single line. -/
def lines : List Char → List (List Char)
  | [] => [[]]
  | char :: rest =>
    if char = '\n' then [] :: lines rest
    else
      match lines rest with
      | [] => [[char]]
      | line :: others => (char :: line) :: others

theorem lines_ne_nil (chars : List Char) : lines chars ≠ [] := by
  cases chars with
  | nil => simp [lines]
  | cons char rest =>
    unfold lines
    split
    · simp
    · split <;> simp

/-- There is one line more than there are line feeds. -/
theorem length_lines (chars : List Char) : (lines chars).length = chars.count '\n' + 1 := by
  induction chars with
  | nil => rfl
  | cons char rest ih =>
    unfold lines
    by_cases feed : char = '\n'
    · simp [feed, ih]
    · cases found : lines rest with
      | nil => exact absurd found (lines_ne_nil rest)
      | cons line others => simpa [feed, found] using ih

/-- The number, from 1, of the line that holds a position. Positions before the
text belong to its first line, positions after it to its last. -/
def lineOf (chars : List Char) (offset : Int) : Nat :=
  (chars.take offset.toNat).count '\n' + 1

theorem lineOf_le (chars : List Char) (offset : Int) :
    lineOf chars offset ≤ (lines chars).length := by
  rw [length_lines, lineOf]
  exact Nat.succ_le_succ ((List.take_sublist _ _).count_le _)

/-- One row of an excerpt: a pointer for the line meant, its number, its text. -/
def excerptRow (marked : Bool) (number : Nat) (line : String) : String :=
  (if marked then ">" else " ") ++ " " ++ rightAligned 4 number ++ " | " ++ line

/-- The rows within a distance of the line meant. A number outside the text
means its first or its last line. -/
def excerptRows (all : List String) (line around : Int) : List String :=
  let meant : Int := min (max 1 line) all.length
  (all.zipIdx 1).filterMap fun (text, number) =>
    if meant - around ≤ number ∧ (number : Int) ≤ meant + around then
      some (excerptRow (number == meant) number text)
    else none

def excerpt (all : List String) (line around : Int) : String :=
  "\n".intercalate (excerptRows all line around)

end Brainfuck.Text
