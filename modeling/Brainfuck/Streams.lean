import Brainfuck.Fault

namespace Brainfuck

structure Streams where
  /-- What the next reads give. A read may give nothing and a later one something. -/
  input : List (Option Int) := []
  output : Array UInt8 := #[]
  deriving Repr

namespace Streams

def read (streams : Streams) : Option Int × Streams :=
  match streams.input with
  | [] => (none, streams)
  | value :: rest => (value, { streams with input := rest })

def write (streams : Streams) (value : UInt8) : Streams :=
  { streams with output := streams.output.push value }

def readMany : Nat → Streams → List (Option Int)
  | 0, _ => []
  | count + 1, streams =>
    let (value, rest) := streams.read
    value :: readMany count rest

end Streams

/-- Input as it is given to a run. -/
inductive InputData where
  | ofText (text : String)
  | ofValues (values : List (Option Int))
  deriving DecidableEq, Repr

/-- What the reads give: a byte for each character of a text, each value as it
is. A character beyond one byte is refused. -/
def InputData.reads : InputData → Except Fault (List (Option Int))
  | .ofText text =>
    text.toList.mapM fun char =>
      if char.toNat < 256 then .ok (some (char.toNat : Int)) else .error .unencodable
  | .ofValues values => .ok values

def inputOfBytes (bytes : List UInt8) : List (Option Int) :=
  bytes.map fun byte => some (byte.toNat : Int)

/-- Typed characters as input: each gives the low byte of its code point. -/
def inputOfTyped (text : String) : List (Option Int) :=
  text.toList.map fun char => some (char.toNat % 256 : Nat)

/-- The character that shows an output value. A value of more than 32 bits is not
looked at. -/
def charOfOutput (value : Int) : Except Fault Char :=
  if value < -0x80000000 ∨ 0x7FFFFFFF < value then .error (.overflow value)
  else if 0 ≤ value ∧ value < 0x110000 then .ok (Char.ofNat value.toNat)
  else .error (.noCharacter value)

/-- Output as text, a character for each byte. -/
def textOfOutput (output : Array UInt8) : String :=
  String.ofList (output.toList.map fun value => Char.ofNat value.toNat)

end Brainfuck
