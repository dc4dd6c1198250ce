import Brainfuck.Fault

namespace Brainfuck.Command

inductive Level where
  | debug
  | info
  | warning
  | error
  | critical
  deriving DecidableEq, Repr

namespace Level

def name : Level → String
  | debug => "DEBUG"
  | info => "INFO"
  | warning => "WARNING"
  | error => "ERROR"
  | critical => "CRITICAL"

def rank : Level → Nat
  | debug => 10
  | info => 20
  | warning => 30
  | error => 40
  | critical => 50

/-- The names of the levels, and second names for two of them. -/
def named : List (String × Level) :=
  [debug, info, warning, error, critical].map (fun level => (level.name, level)) ++
    [("WARN", warning), ("FATAL", critical)]

/-- Upper case, as far as the names below need it: there are two small letters for I, two
for S, and two ligatures for ST. -/
def upper (char : Char) : List Char :=
  match char with
  | 'ı' => ['I']
  | 'ſ' => ['S']
  | 'ﬅ' | 'ﬆ' => ['S', 'T']
  | _ => [char.toUpper]

/-- Names that stand for something else than a level: the form that log lines have without
a time, and the styles of forms. -/
def misnamed : List (String × NoLevel) :=
  [("BASIC_FORMAT", .text "%(levelname)s:%(name)s:%(message)s"),
    ("_STYLES", .table <|
      "\x7b'%': (<class 'logging.PercentStyle'>, '%(levelname)s:%(name)s:%(message)s'), " ++
      "'\x7b': (<class 'logging.StrFormatStyle'>, " ++
        "'\x7blevelname\x7d:\x7bname\x7d:\x7bmessage\x7d'), " ++
      "'$': (<class 'logging.StringTemplateStyle'>, " ++
        "'$\x7blevelname\x7d:$\x7bname\x7d:$\x7bmessage\x7d')\x7d")]

/-- The level with a name in letters of either case. A name of something else is refused,
and an unknown name means warnings. -/
def ofName (name : String) : Except Fault Level :=
  let upperName := String.ofList (name.toList.flatMap upper)
  match misnamed.lookup upperName with
  | some found => .error (.noLevel found)
  | none => .ok ((named.lookup upperName).getD warning)

end Level
end Brainfuck.Command
