namespace Brainfuck.Command

/-- The name under which the command reports. -/
def programName : String := "bfx"

def usage : String :=
  "usage: bfx [-h] [--input INPUT] [--breakpoints] [--no-breakpoints]\n" ++
  "           [--verbose | --step] [--window WINDOW] [--max-steps MAX_STEPS]\n" ++
  "           [--expand] [--log-level LOG_LEVEL]\n" ++
  "           file\n"

def help : String :=
  usage ++
  "\n" ++
  "Brainfuck interpreter with macros, breakpoints and step debugging.\n" ++
  "\n" ++
  "positional arguments:\n" ++
  "  file                  source file to run\n" ++
  "\n" ++
  "options:\n" ++
  "  -h, --help            show this help message and exit\n" ++
  "  --input INPUT         program input (default: read stdin)\n" ++
  "  --breakpoints         pause at '#' breakpoint markers (default)\n" ++
  "  --no-breakpoints      ignore '#' breakpoint markers\n" ++
  "  --verbose             dump the tape after every instruction\n" ++
  "  --step                dump the tape and wait for Enter after every\n" ++
  "                        instruction\n" ++
  "  --window WINDOW       cells shown on each side of the pointer\n" ++
  "  --max-steps MAX_STEPS\n" ++
  "                        stop after this many instructions\n" ++
  "  --expand              print the macro-expanded program and exit\n" ++
  "  --log-level LOG_LEVEL\n" ++
  "                        logging level (debug, info, warning)\n"

/-- What is shown for a command line that makes no sense. -/
def usageError (message : String) : String :=
  usage ++ programName ++ ": error: " ++ message ++ "\n"

end Brainfuck.Command
