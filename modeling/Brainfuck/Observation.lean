import Brainfuck.Instruction

namespace Brainfuck

structure Observation where
  index : Int
  pointer : Int
  instruction : Instruction
  /-- The values of neighbouring cells, the first of them at `windowStart`. -/
  window : List Int
  windowStart : Int
  steps : Int
  deriving DecidableEq, Repr

namespace Observation

/-- The cells of the window with their addresses. -/
def cells (observation : Observation) : List (Int × Int) :=
  observation.window.zipIdx.map fun (value, index) => (observation.windowStart + index, value)

def valueFields (observation : Observation) : List String :=
  observation.cells.map fun (_, value) => Text.rightAligned 3 value

/-- A mark for the cell under the pointer, blanks for the others. -/
def pointerFields (observation : Observation) : List String :=
  observation.cells.map fun (address, _) => if address = observation.pointer then " ^ " else "   "

def addressFields (observation : Observation) : List String :=
  observation.cells.map fun (address, _) => Text.rightAligned 3 address

def heading (observation : Observation) (description : String) : String :=
  s!"Step {observation.steps}: '{description}' at {observation.index}, " ++
    s!"pointer={observation.pointer}"

def rows (observation : Observation) (description : String) : List String :=
  [observation.heading description,
    "Memory:   [" ++ "|".intercalate observation.valueFields ++ "]",
    "Pointer:   " ++ " ".intercalate observation.pointerFields,
    "Address:   " ++ " ".intercalate observation.addressFields]

/-- The observation in four lines: a heading, and below it the values, the
pointer and the addresses of the cells in columns. -/
def text (observation : Observation) : Except Fault String := do
  return "\n".intercalate (observation.rows (← observation.instruction.description))

end Observation
end Brainfuck
