import Brainfuck.Proofs.Acceptance
import Brainfuck.Proofs.Command.Arguments
import Brainfuck.Proofs.Command.Course
import Brainfuck.Proofs.Command.Following

namespace Brainfuck

namespace Text.Encoding

variable {bytes : ByteArray} {text : String}

theorem toList_loop (bytes : ByteArray) (place : Nat) (read : List UInt8) :
    ByteArray.toList.loop bytes place read = read.reverse ++ bytes.data.toList.drop place := by
  fun_induction ByteArray.toList.loop bytes place read with
  | case1 place read inside ih =>
    have inside' : place < bytes.data.toList.length := by simpa using inside
    have found : bytes.get! place = bytes.data.toList[place] := by
      rw [Array.getElem_toList]
      exact getElem!_pos bytes.data place inside
    rw [ih, List.drop_eq_getElem_cons inside', found]
    simp
  | case2 place read outside =>
    have outside' : bytes.data.toList.length ≤ place := by simpa using outside
    rw [List.drop_eq_nil_of_le outside', List.append_nil]

theorem toArray_toList (bytes : ByteArray) : (⟨bytes.toList.toArray⟩ : ByteArray) = bytes := by
  rw [ByteArray.toList, toList_loop]
  rfl

theorem decodeFront?_toList (decoded : utf8.decode? bytes = some text) :
    decodeFront? bytes.toList = some (text, false) := by
  rw [decodeFront?, toArray_toList, decoded]

end Text.Encoding

variable {source : String} {data : InputData} {program : Program} {status : Status}
  {machine : Machine} {fuel : Nat}

theorem sourceOfFile_eq {contents : ByteArray} {text : String}
    (decoded : Text.Encoding.utf8.decode? contents = some text)
    (plain : Text.foldNewlines text.toList = text.toList) :
    sourceOfFile .utf8 contents = .ok text := by
  rw [sourceOfFile, decoded]
  simp only [plain, String.ofList_toList]

theorem Machine.Placed.load_of_build (built : build source = .ok program)
    (input : List (Option Int)) :
    ∃ block : Block, (Machine.load program input).Placed (block.instructions 0) := by
  obtain ⟨tokens, -, made⟩ := build_eq_ok_iff.mp built
  obtain ⟨block, -, rfl⟩ := Program.ofTokens_eq_ok_iff.mp made
  have begins := Machine.Begins.load (Program.ofBlock block tokens source) input Tape.defaultSize
  exact ⟨block, begins.placed⟩

/-- A run of a text to its end is a chain of steps of the machine that its program is loaded
into. -/
theorem steps_of_runSource (ran : runSource source data none fuel = .ok (some (status, machine))) :
    ∃ program input, build source = .ok program ∧ data.reads = .ok input ∧
      Machine.Steps fuel (Machine.load program input) machine ∧
      machine.engine.finished = true ∧ machine.engine.status = status := by
  cases built : build source with
  | error fault => simp [runSource, built, bind, Except.bind] at ran
  | ok program =>
    cases reads : data.reads with
    | error fault => simp [runSource, built, reads, bind, Except.bind] at ran
    | ok input =>
      cases ended : Machine.runToEnd fuel (Machine.load program input) with
      | mk result after =>
        cases result with
        | error fault => simp [runSource, built, reads, ended, bind, Except.bind] at ran
        | ok status? =>
          have same : status?.map (·, after) = some (status, machine) := by
            simpa only [runSource, built, reads, ended, bind, Except.bind, pure, Except.pure,
              Except.ok.injEq] using ran
          obtain ⟨_, rfl, same⟩ := Option.map_eq_some_iff.mp same
          cases same
          obtain ⟨ran, same⟩ := Machine.runToEnd_eq_some_iff.mp ended
          obtain ⟨steps, finished⟩ := Machine.steps_of_run ran
          exact ⟨program, input, rfl, rfl, steps, finished, same⟩

namespace Command

variable {settings : Settings} {console before after : Console} {contents : ByteArray}

/-- Nothing has happened at the console, but for what is on error output. -/
def Console.Logged (before after : Console) : Prop :=
  ∃ errors, after = { before with errors }

namespace Console.Logged

theorem refl (console : Console) : console.Logged console := ⟨console.errors, rfl⟩

theorem log (logged : before.Logged after) (level : Level) (message : String) :
    before.Logged (after.log level message) := by
  obtain ⟨errors, rfl⟩ := logged
  unfold Console.log
  split
  · exact ⟨_, rfl⟩
  · exact ⟨_, rfl⟩

end Console.Logged

/-- The command builds a text as it is built without it. -/
theorem load_fst (console : Console) (source : String) :
    (load console source).1 = build source := by
  cases read : Scan.ofSource source with
  | error diagnostic => simp [load, build, preprocess, read, bind, Except.bind]
  | ok scan =>
    cases flat : scan.flatten with
    | error diagnostic => simp [load, build, preprocess, read, flat, bind, Except.bind]
    | ok tokens =>
      have done : preprocess source = .ok tokens := preprocess_eq_ok_iff.mpr ⟨scan, read, flat⟩
      cases made : Program.ofTokens tokens source <;>
        simp [load, build, read, flat, done, made]

theorem load_logged (console : Console) (source : String) :
    console.Logged (load console source).2 := by
  have first := Console.Logged.refl console
  unfold load
  split
  · exact first
  · split
    · exact first
    · dsimp only
      split
      · exact first.log _ _
      · exact (first.log _ _).log _ _

theorem exists_load (console : Console) (source : String) :
    ∃ after, load console source = (build source, after) ∧ console.Logged after :=
  ⟨_, Prod.ext (load_fst console source) rfl, load_logged console source⟩

theorem process_of_error {fault : Fault} (decoded : sourceOfFile .utf8 contents = .ok source)
    (failed : build source = .error fault) :
    ∃ errors, process settings contents console fuel =
      some ⟨.exit 2, console.output, errors⟩ := by
  obtain ⟨diagnostic, rfl⟩ := build_error failed
  obtain ⟨after, loaded, errors, rfl⟩ := exists_load console source
  rw [failed] at loaded
  exact ⟨_, by simp only [process, decoded, loaded]; rfl⟩

theorem process_of_ok (decoded : sourceOfFile .utf8 contents = .ok source)
    (built : build source = .ok program) (unexpanded : settings.expand = false) :
    ∃ after, console.Logged after ∧
      ∀ fuel, process settings contents console fuel = execute settings program after fuel := by
  obtain ⟨after, loaded, logged⟩ := exists_load console source
  rw [built] at loaded
  exact ⟨after, logged, fun fuel => by simp [process, decoded, loaded, unexpanded]⟩

theorem execute_ne_two {outcome : Outcome}
    (executed : execute settings program console fuel = some outcome) :
    outcome.ending ≠ .exit 2 := by
  unfold execute at executed
  split at executed
  · cases executed
    simp [finish]
  · cases executed
    simp [finish]
  · dsimp only at executed
    split at executed
    · cases executed
    · next driven =>
      cases executed
      simpa [finish] using (course_of_drive driven).ne_two
    · cases executed
      simp [finish]

theorem exists_exitCode (finished : machine.engine.finished = true) :
    ∃ code, exitCode machine.engine.status = some code := by
  cases status : machine.engine.status with
  | halted => exact ⟨0, rfl⟩
  | failed underflow => exact ⟨1, rfl⟩
  | _ => simp [Engine.finished, status, Status.isFinal] at finished

/-- A run without a limit comes to the end that the program comes to. -/
theorem execute_of_steps {reads : List (Option Int)} {count : Nat} (ordinary : settings.Ordinary)
    (given : settings.data = some data) (fed : data.reads = .ok reads) (willing : console.Willing)
    (silent : console.output = "") (built : build source = .ok program)
    (steps : Machine.Steps count (Machine.load program reads) machine)
    (finished : machine.engine.finished = true) {code : Nat}
    (told : exitCode machine.engine.status = some code) (enough : count < fuel) :
    ∃ errors, execute settings program console fuel =
      some ⟨.exit code, textOfOutput machine.streams.output, errors⟩ := by
  obtain ⟨window, framed⟩ := ordinary.window
  obtain ⟨block, placed⟩ := Machine.Placed.load_of_build built reads
  have connected : connect settings console =
      .ok { console with feed := some { input := reads } } := by
    simp [connect, given, fed, bind, Except.bind, pure, Except.pure]
  have fresh : Console.Follows { console with feed := some { input := reads } }
      { input := reads } :=
    ⟨⟨_, rfl, rfl⟩, silent, willing⟩
  simp only [execute, Settings.options, framed, connected, ordinary.unlimited]
  have follows : Follows (Machine.load program reads) (Session.start program
      { breakpoints := settings.breakpoints, mode := settings.mode, window := max 0 window },
      ({ console with feed := some { input := reads } }).log .info
        s!"running {settings.file} ({program.size} instructions)") :=
    ⟨rfl, rfl, fresh.log _ _⟩
  obtain ⟨code?, after, driven, rfl, output⟩ :=
    follows.drive rfl placed steps finished (Nat.le_of_lt enough) enough
  rw [told] at driven
  simp only [driven, ← output]
  exact ⟨after.2.errors, rfl⟩

/-- Standard input is a text, and no line of it asks to stop. -/
def NeverQuits (stdin : ByteArray) : Prop :=
  ∃ text, Text.Encoding.utf8.decode? stdin = some text ∧
    ∀ line ∈ Console.typedLines text.toList, Console.isQuit line = false

theorem NeverQuits.willing {stdin : ByteArray} (patient : NeverQuits stdin)
    (unread : console.bytes = stdin.toList) (fresh : console.typed = none) : console.Willing := by
  obtain ⟨text, decoded, agrees⟩ := patient
  refine ⟨Console.typedLines text.toList, ?_, agrees⟩
  simp only [Console.typing, fresh, unread, Text.Encoding.decodeFront?_toList decoded]
  rfl

/-- What a program reads of an input: a lone separator is left out, and with it the input. -/
def inputData (input : String) : InputData :=
  if input = Word.separatorText then .ofValues [] else .ofText input

theorem Settings.data_eq {input : String} (given : settings.input = some (Settings.text input)) :
    settings.data = some (inputData input) := by
  rw [data, given, text, inputData]
  split <;> rfl

/-- A command ends as the run of a text in memory does. It exits with 2 exactly if the text is
not built. -/
structure Reproduces (command : Nat → Option Outcome) (source : String) (data : InputData) :
    Prop where
  refuses : ∀ fuel, (∃ errors, command fuel = some ⟨.exit 2, "", errors⟩) ↔
    ∃ fault, build source = .error fault
  ends : ∀ fuel status machine, runSource source data none fuel = .ok (some (status, machine)) →
    ∃ code, exitCode status = some code ∧ ∀ more, fuel < more →
      ∃ errors, command more = some ⟨.exit code, textOfOutput machine.streams.output, errors⟩

/-- A text that was decoded is run as it is run in memory with the data that is asked for. -/
theorem process_reproduces (ordinary : settings.Ordinary) (given : settings.data = some data)
    (decoded : sourceOfFile .utf8 contents = .ok source) (willing : console.Willing)
    (silent : console.output = "") :
    Reproduces (process settings contents console) source data := by
  constructor
  · intro fuel
    constructor
    · rintro ⟨errors, exited⟩
      cases built : build source with
      | error fault => exact ⟨fault, rfl⟩
      | ok program =>
        obtain ⟨after, -, processed⟩ := process_of_ok decoded built ordinary.unexpanded
        rw [processed] at exited
        exact absurd rfl (execute_ne_two exited)
    · rintro ⟨fault, failed⟩
      rw [← silent]
      exact process_of_error decoded failed
  · intro fuel status machine ran
    obtain ⟨program, reads, built, fed, steps, finished, rfl⟩ := steps_of_runSource ran
    obtain ⟨after, ⟨errors, rfl⟩, processed⟩ := process_of_ok decoded built ordinary.unexpanded
    obtain ⟨code, told⟩ := exists_exitCode finished
    refine ⟨code, told, fun more enough => ?_⟩
    have willing' : Console.Willing { console with errors } := willing
    rw [processed]
    exact execute_of_steps ordinary given fed willing' silent built steps finished told enough

variable {file input : String} {arguments : List Argument} {stdin : ByteArray}

theorem exists_process (lookUp : String → Entry) (line : CommandLine file input arguments)
    (found : lookUp file = .file contents) (patient : NeverQuits stdin) (clock : String) :
    ∃ settings console, run lookUp (arguments.flatMap Argument.texts) stdin clock =
        process settings contents console ∧
      settings.Ordinary ∧ settings.data = some (inputData input) ∧
      console.Willing ∧ console.output = "" := by
  obtain ⟨settings, read, rfl, given, ordinary⟩ := line.exists_settings
  obtain ⟨level, leveled⟩ := ordinary.level
  refine ⟨settings, { level, clock, bytes := stdin.toList }, ?_, ordinary,
    Settings.data_eq given, patient.willing rfl rfl, rfl⟩
  funext fuel
  simp only [run, read, leveled, found]

/-- Whatever flags the command is called with, it does what is done in memory. -/
theorem run_reproduces {lookUp : String → Entry} (line : CommandLine file input arguments)
    (found : lookUp file = .file contents) (decoded : sourceOfFile .utf8 contents = .ok source)
    (patient : NeverQuits stdin) (clock : String) :
    Reproduces (run lookUp (arguments.flatMap Argument.texts) stdin clock) source
      (inputData input) := by
  obtain ⟨settings, console, run_eq, ordinary, given, willing, silent⟩ :=
    exists_process lookUp line found patient clock
  rw [run_eq]
  exact process_reproduces ordinary given decoded willing silent

/-- A program with a breakpoint that copies its input and then fails, step by step. -/
theorem run_reproduces_steps :
    Reproduces
      (run (fun _ => .file ",.#<".toUTF8)
        ["--step", "--log-level", "Debug", "copy.bf", "--input=a", "--window=-3"]
        "\n y\n".toUTF8 "")
      ",.#<" (inputData "a") := by
  have line : CommandLine "copy.bf" "a"
      [.step, .logLevel false "Debug", .file "copy.bf", .input "a", .window true "-3"] := by
    refine ⟨?_, rfl, rfl, by decide⟩
    have path : Argument.Standalone "copy.bf" := rfl
    have level : Argument.NamesLevel "Debug" := Argument.namesLevel_of_ne (by decide) (by decide)
    have standalone : Argument.Standalone "Debug" := rfl
    have number : (Text.integer? "-3").isSome := by decide +kernel
    simp [Argument.Valid, path, level, standalone, number]
  have decoded : sourceOfFile .utf8 ",.#<".toUTF8 = .ok ",.#<" :=
    sourceOfFile_eq (by decide +kernel) rfl
  have typed : Text.Encoding.utf8.decode? "\n y\n".toUTF8 = some "\n y\n" := by decide +kernel
  exact run_reproduces line rfl decoded ⟨_, typed, by decide⟩ ""

theorem exists_of_printed {ran : Except Fault (Option (Status × Machine))} {status : Status}
    {text : String}
    (printed : ran.map (Option.map fun (status, machine) =>
      (status, textOfOutput machine.streams.output)) = .ok (some (status, text))) :
    ∃ machine, ran = .ok (some (status, machine)) ∧
      textOfOutput machine.streams.output = text := by
  rcases ran with _ | _ | ⟨_, machine⟩
  · cases printed
  · cases printed
  · cases printed
    exact ⟨machine, rfl, rfl⟩

/-- A lone separator is not what `,.` reads if it is the input. -/
theorem not_reproduces_separator :
    ¬ Reproduces (run (fun _ => .file ",.".toUTF8) ["copy.bf", "--input=--"] "".toUTF8 "") ",."
      (.ofText "--") := by
  intro reproduces
  have path : Argument.Standalone "copy.bf" := rfl
  have line : CommandLine "copy.bf" "--" [.file "copy.bf", .input "--"] :=
    ⟨by simpa [Argument.Valid] using path, rfl, rfl, by decide⟩
  have decoded : sourceOfFile .utf8 ",.".toUTF8 = .ok ",." :=
    sourceOfFile_eq (by decide +kernel) rfl
  have typed : Text.Encoding.utf8.decode? "".toUTF8 = some "" := by decide +kernel
  obtain ⟨settings, console, run_eq, ordinary, given, willing, silent⟩ :=
    exists_process (fun _ => .file ",.".toUTF8) line rfl ⟨_, typed, by decide⟩ ""
  have actual := process_reproduces ordinary given decoded willing silent
  obtain ⟨_, claimed, copied⟩ : ∃ machine,
      runSource ",." (.ofText "--") none 2 = .ok (some (.halted, machine)) ∧
        textOfOutput machine.streams.output = "-" := exists_of_printed (by decide +kernel)
  obtain ⟨_, ran, blank⟩ : ∃ machine,
      runSource ",." (inputData "--") none 2 = .ok (some (.halted, machine)) ∧
        textOfOutput machine.streams.output = "\x00" := exists_of_printed (by decide +kernel)
  obtain ⟨_, -, ends⟩ := reproduces.ends 2 _ _ claimed
  obtain ⟨_, -, ends'⟩ := actual.ends 2 _ _ ran
  obtain ⟨_, ended⟩ := ends 3 (by decide)
  obtain ⟨_, ended'⟩ := ends' 3 (by decide)
  rw [copied] at ended
  rw [blank, ← run_eq] at ended'
  have same : some "-" = some "\x00" :=
    congrArg (Option.map Outcome.output) (ended.symm.trans ended')
  exact absurd same (by decide)

end Command
end Brainfuck
