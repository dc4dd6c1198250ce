namespace Brainfuck.Text

inductive Encoding where
  | utf8
  /-- UTF-8 that may begin with a byte order mark. -/
  | utf8Marked
  | latin1
  | ascii
  deriving DecidableEq, Repr

namespace Encoding

def name : Encoding → String
  | utf8 => "utf-8"
  | utf8Marked => "utf-8-sig"
  | latin1 => "latin-1"
  | ascii => "ascii"

def ofName? (name : String) : Option Encoding :=
  [utf8, utf8Marked, latin1, ascii].find? (·.name == name)

/-- The mark that a marked text begins with. -/
def byteOrderMark : List UInt8 := [0xEF, 0xBB, 0xBF]

/-- The character of each byte, if all bytes are below a limit. -/
def decodeBytes (limit : Nat) (bytes : ByteArray) : Option String :=
  if bytes.toList.all (·.toNat < limit) then
    some (String.ofList (bytes.toList.map fun byte => Char.ofNat byte.toNat))
  else none

/-- The bytes behind a byte order mark, which may be cut off. Without one nothing
is left out. -/
def unmarked (bytes : List UInt8) : List UInt8 :=
  if bytes.isPrefixOf byteOrderMark then []
  else if byteOrderMark.isPrefixOf bytes then bytes.drop byteOrderMark.length
  else bytes

def decode? (encoding : Encoding) (bytes : ByteArray) : Option String :=
  match encoding with
  | utf8 => String.fromUTF8? bytes
  | utf8Marked => String.fromUTF8? ⟨(unmarked bytes.toList).toArray⟩
  | latin1 => decodeBytes 256 bytes
  | ascii => decodeBytes 128 bytes

/-- Whether a byte may follow the first byte of a character in UTF-8 while the rest
is not known. The bytes of a surrogate are refused only once they are complete. -/
def mayFollow (first second : UInt8) : Bool :=
  if first = 0xE0 then 0xA0 ≤ second && second ≤ 0xBF
  else if first = 0xF0 then 0x90 ≤ second && second ≤ 0xBF
  else if first = 0xF4 then 0x80 ≤ second && second ≤ 0x8F
  else 0x80 ≤ second && second ≤ 0xBF

/-- Bytes that begin a character in UTF-8 and lack its end. -/
def isCutCharacter : List UInt8 → Bool
  | [first] => 0xC2 ≤ first && first ≤ 0xF4
  | [first, second] => 0xE0 ≤ first && first ≤ 0xF4 && mayFollow first second
  | [first, second, third] =>
    0xF0 ≤ first && first ≤ 0xF4 && mayFollow first second && 0x80 ≤ third && third ≤ 0xBF
  | _ => false

/-- The text of bytes in UTF-8, and whether another character is cut off behind
it. -/
def decodeFront? (bytes : List UInt8) : Option (String × Bool) :=
  match utf8.decode? ⟨bytes.toArray⟩ with
  | some text => some (text, false)
  | none =>
    [1, 2, 3].findSome? fun count =>
      let front := bytes.length - count
      if count ≤ bytes.length ∧ isCutCharacter (bytes.drop front) then
        (utf8.decode? ⟨(bytes.take front).toArray⟩).map (·, true)
      else none

end Encoding

/-- Every end of a line becomes a line feed: a carriage return with the line feed
behind it, or alone. -/
def foldNewlines : List Char → List Char
  | '\r' :: '\n' :: rest => '\n' :: foldNewlines rest
  | '\r' :: rest => '\n' :: foldNewlines rest
  | char :: rest => char :: foldNewlines rest
  | [] => []

end Brainfuck.Text
