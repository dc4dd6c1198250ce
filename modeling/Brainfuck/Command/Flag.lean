import Brainfuck.Text.Integer

namespace Brainfuck.Command

inductive Flag where
  | help
  | input
  | breakpoints
  | noBreakpoints
  | verbose
  | step
  | window
  | maxSteps
  | expand
  | logLevel
  deriving DecidableEq, Repr

namespace Flag

def all : List Flag :=
  [help, input, breakpoints, noBreakpoints, verbose, step, window, maxSteps, expand, logLevel]

def spellings : Flag → List String
  | help => ["-h", "--help"]
  | input => ["--input"]
  | breakpoints => ["--breakpoints"]
  | noBreakpoints => ["--no-breakpoints"]
  | verbose => ["--verbose"]
  | step => ["--step"]
  | window => ["--window"]
  | maxSteps => ["--max-steps"]
  | expand => ["--expand"]
  | logLevel => ["--log-level"]

/-- The flag in messages. -/
def label (flag : Flag) : String := "/".intercalate flag.spellings

def takesValue : Flag → Bool
  | input | window | maxSteps | logLevel => true
  | help | breakpoints | noBreakpoints | verbose | step | expand => false

/-- All spellings in the order of the flags. -/
def spelled : List (String × Flag) :=
  all.flatMap fun flag => flag.spellings.map (·, flag)

def ofSpelling? (spelling : String) : Option Flag := spelled.lookup spelling

/-- Whether a spelling is a word rather than a letter. -/
def isLong (spelling : String) : Bool := spelling.startsWith "--"

end Flag

/-- What a word of the command line is. -/
inductive Word where
  | value (text : String)
  /-- Behind it every word is a value. -/
  | separator
  /-- A flag, perhaps with a value behind an equals sign. -/
  | flag (flag : Flag) (attached : Option String)
  /-- A short flag with text behind it, directly or behind an equals sign. -/
  | cluster (flag : Flag) (following : List Char)
  | unknown (text : String)
  deriving DecidableEq, Repr

namespace Word

/-- The word itself, as it is repeated in a message. -/
def separatorText : String := "--"

/-- A minus sign, digits, and perhaps a point with more digits behind it. One
line feed may follow. -/
def isNegativeNumber (chars : List Char) : Bool :=
  match chars with
  | '-' :: rest =>
    let body := if rest.getLast? = some '\n' then rest.dropLast else rest
    match body.dropWhile Text.isDigit with
    | [] => !body.isEmpty
    | '.' :: fraction => !fraction.isEmpty && fraction.all Text.isDigit
    | _ => false
  | _ => false

/-- The text before the first equals sign, and the text behind it if there is
one. -/
def splitAtEquals (text : String) : String × Option String :=
  let chars := text.toList
  let before := String.ofList (chars.takeWhile (· != '='))
  match chars.dropWhile (· != '=') with
  | [] => (before, none)
  | _ :: behind => (before, some (String.ofList behind))

/-- A word that begins with a minus sign and spells no flag in full. The start of
a single spelling stands for it; otherwise numbers, and words with a space in
them, are values. -/
def ofAbbreviation (text : String) : Except String Word :=
  let (start, attached) := splitAtEquals text
  match text.toList with
  | '-' :: '-' :: _ =>
    match Flag.spelled.filter fun (spelling, _) => spelling.startsWith start with
    | [] => .ok leftover
    | [(_, found)] => .ok (.flag found attached)
    | several =>
      .error (s!"ambiguous option: {text} could match " ++
        ", ".intercalate (several.map (·.1)))
  | first :: second :: following =>
    match Flag.ofSpelling? (String.ofList [first, second]) with
    | some found => .ok (.cluster found following)
    | none => .ok leftover
  | _ => .ok leftover
where
  leftover : Word :=
    if isNegativeNumber text.toList || text.toList.contains ' ' then .value text
    else .unknown text

/-- What a word is that stands before any separator. -/
def ofText (text : String) : Except String Word :=
  if text = separatorText then .ok .separator
  else if text.toList.length < 2 ∨ text.toList.head? ≠ some '-' then .ok (.value text)
  else
    match Flag.ofSpelling? text with
    | some found => .ok (.flag found none)
    | none =>
      let (start, attached) := splitAtEquals text
      match attached, Flag.ofSpelling? start with
      | some behind, some found =>
        .ok (if Flag.isLong start then .flag found behind else .cluster found behind.toList)
      | _, _ => ofAbbreviation text

/-- The words of a command line. -/
def ofTexts : List String → Except String (List Word)
  | [] => .ok []
  | text :: rest => do
    let word ← ofText text
    if word = .separator then return .separator :: rest.map .value
    else return word :: (← ofTexts rest)

end Word
end Brainfuck.Command
