import Brainfuck.Main
import Brainfuck.Proofs.StructuredRun
import Brainfuck.Proofs.ErasedRun
import Brainfuck.Proofs.Transparency
import Brainfuck.Proofs.Macro.Expansion
import Brainfuck.Proofs.Macro.Agreement
import Brainfuck.Proofs.PastedBody
import Brainfuck.Proofs.Rebuilding
import Brainfuck.Proofs.Invariant
import Brainfuck.Proofs.Scan.Grammar
import Brainfuck.Proofs.Scan.Account
import Brainfuck.Proofs.Scan.Printing
import Brainfuck.Proofs.Scan.Joining
import Brainfuck.Proofs.Scan.Extending
import Brainfuck.Proofs.Macro.Checking
import Brainfuck.Proofs.Acceptance
import Brainfuck.Proofs.Spacing
import Brainfuck.Proofs.Command.Following
import Brainfuck.Proofs.Command.Arguments
import Brainfuck.Proofs.Command.Result
import Brainfuck.Proofs.Command.Allowance
import Brainfuck.Proofs.Command.Stopping
import Brainfuck.Proofs.Session.Breakpoints
import Brainfuck.Proofs.Session.Raising
import Brainfuck.Proofs.Session.Reentry
import Brainfuck.Proofs.Session.Requests
import Brainfuck.Proofs.Session.Repetition
import Brainfuck.Proofs.Session.Observations
import Brainfuck.Proofs.Session.Consultation
import Brainfuck.Proofs.JumpTable
import Brainfuck.Proofs.UnmatchedBrackets
import Brainfuck.Proofs.Pointing
import Brainfuck.Proofs.Tape.Snapshot
import Brainfuck.Proofs.Session.TapeSize
import Brainfuck.Proofs.Session.Endings
import Brainfuck.Proofs.Session.Columns
import Brainfuck.Proofs.Budgets
import Brainfuck.Proofs.Session.Budgets
