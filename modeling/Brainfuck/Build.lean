import Brainfuck.Machine
import Brainfuck.Macro.Expansion
import Brainfuck.Scan
import Brainfuck.Text.Encoding

namespace Brainfuck

/-- The tokens of a text once the calls among them are replaced. All definitions
are checked first, also those that are never called. -/
def Scan.flatten (scan : Scan) : Except Diagnostic (List Token) := do
  scan.table.check
  scan.table.expand scan.tokens

theorem Scan.flatten_eq_ok_iff {scan : Scan} {tokens : List Token} :
    scan.flatten = .ok tokens ↔
      scan.table.check = .ok () ∧ scan.table.expand scan.tokens = .ok tokens := by
  unfold flatten
  cases scan.table.check with
  | error diagnostic => simp [bind, Except.bind]
  | ok done => simp [bind, Except.bind]

def preprocess (source : String) : Except BuildError (List Token) :=
  match Scan.ofSource source >>= Scan.flatten with
  | .ok tokens => .ok tokens
  | .error diagnostic => .error (diagnostic.report source)

theorem preprocess_eq_ok_iff {source : String} {tokens : List Token} :
    preprocess source = .ok tokens ↔
      ∃ scan, Scan.ofSource source = .ok scan ∧ scan.flatten = .ok tokens := by
  unfold preprocess
  cases Scan.ofSource source with
  | error diagnostic => simp [bind, Except.bind]
  | ok scan => cases flat : scan.flatten <;> simp [bind, Except.bind, flat]

def build (source : String) : Except Fault Program :=
  match preprocess source with
  | .ok tokens => Program.ofTokens tokens source
  | .error error => .error (.build error)

theorem build_eq_ok_iff {source : String} {program : Program} :
    build source = .ok program ↔
      ∃ tokens, preprocess source = .ok tokens ∧ Program.ofTokens tokens source = .ok program := by
  unfold build
  cases preprocess source <;> simp

/-- The text of a file, with line feeds between its lines. -/
def sourceOfFile (encoding : Text.Encoding) (bytes : ByteArray) : Except Fault String :=
  match encoding.decode? bytes with
  | some text => .ok (String.ofList (Text.foldNewlines text.toList))
  | none => .error .undecodable

def buildFile (encoding : Text.Encoding) (bytes : ByteArray) : Except Fault Program :=
  sourceOfFile encoding bytes >>= build

/-- Build a text and run it with an input, at most `limit` instructions or to the
end. There is no result if the end is more than `fuel` instructions away. -/
def runSource (source : String) (data : InputData) (limit : Option Nat) (fuel : Nat) :
    Except Fault (Option (Status × Machine)) := do
  let program ← build source
  let input ← data.reads
  let action := match limit with
    | some count => some <$> Machine.runFor count
    | none => Machine.runToEnd fuel
  match action (Machine.load program input) with
  | (.ok status, machine) => return status.map (·, machine)
  | (.error fault, _) => .error fault

end Brainfuck
