import Brainfuck.Command.Settings
import Brainfuck.Command.Execution

namespace Brainfuck.Command

/-- An argument of a run. Where a flag has a value, it stands behind an equals sign or is the
next word. -/
inductive Argument where
  | file (path : String)
  | input (text : String)
  | breakpoints (on : Bool)
  | verbose
  | step
  | window (attached : Bool) (number : String)
  | logLevel (attached : Bool) (name : String)
  deriving DecidableEq, Repr

namespace Argument

/-- A flag with a value, as one word or as two. -/
def valued (spelling : String) (attached : Bool) (value : String) : List String :=
  if attached then [spelling ++ "=" ++ value] else [spelling, value]

/-- The words that an argument is written as. -/
def texts : Argument → List String
  | file path => [path]
  | input text => valued "--input" true text
  | breakpoints on => [if on then "--breakpoints" else "--no-breakpoints"]
  | verbose => ["--verbose"]
  | step => ["--step"]
  | window attached number => valued "--window" attached number
  | logLevel attached name => valued "--log-level" attached name

def file? : Argument → Option String
  | file path => some path
  | input _ | breakpoints _ | verbose | step | window _ _ | logLevel _ _ => none

def input? : Argument → Option String
  | input text => some text
  | file _ | breakpoints _ | verbose | step | window _ _ | logLevel _ _ => none

/-- The text is taken as a value where it is a word of its own. -/
def Standalone (text : String) : Prop := Word.ofText text = .ok (.value text)

/-- The text stands for a level, if only for the one that unknown names stand for. -/
def NamesLevel (name : String) : Prop :=
  Settings.text name = .given name ∧ ∃ level, Level.ofName name = .ok level

theorem namesLevel_of_ne {name : String} (given : name ≠ Word.separatorText)
    (other : Level.misnamed.lookup (String.ofList (name.toList.flatMap Level.upper)) = none) :
    NamesLevel name := by
  refine ⟨if_neg given, ?_⟩
  simp only [Level.ofName, other]
  exact ⟨_, rfl⟩

/-- A path and values that are words of their own are no flags; a window is a number, and a
level has a name. -/
def Valid : Argument → Prop
  | file path => Standalone path
  | window attached number =>
    (Text.integer? number).isSome ∧ (attached = true ∨ Standalone number)
  | logLevel attached name => NamesLevel name ∧ (attached = true ∨ Standalone name)
  | input _ | breakpoints _ | verbose | step => True

end Argument

/-- The arguments are those of a run of a file with an input: both are given once, and it is
not asked for two modes. -/
structure CommandLine (file input : String) (arguments : List Argument) : Prop where
  valid : ∀ argument ∈ arguments, argument.Valid
  files : arguments.filterMap Argument.file? = [file]
  inputs : arguments.filterMap Argument.input? = [input]
  oneMode : ¬ (.verbose ∈ arguments ∧ .step ∈ arguments)

variable {arguments : List Argument} {argument : Argument}

namespace Flag

variable {spelling : String} {flag : Flag}

theorem equals_not_mem (known : ofSpelling? spelling = some flag) : '=' ∉ spelling.toList := by
  have plain : ∀ pair ∈ spelled, '=' ∉ pair.1.toList := by decide
  obtain ⟨before, after, split, -⟩ := List.lookup_eq_some_iff.mp known
  exact plain (spelling, flag) (by simp [split])

end Flag

namespace Word

variable {spelling value text : String} {flag : Flag} {word : Word} {rest : List String}

theorem splitAtEquals_attached (plain : '=' ∉ spelling.toList) (value : String) :
    splitAtEquals (spelling ++ "=" ++ value) = (spelling, some value) := by
  have passes : ∀ char ∈ spelling.toList, (char != '=') = true := by
    intro char member
    exact bne_iff_ne.mpr fun same => plain (same ▸ member)
  have chars : (spelling ++ "=" ++ value).toList = spelling.toList ++ '=' :: value.toList := by
    simp
  rw [splitAtEquals, chars, List.takeWhile_append_of_pos passes,
    List.dropWhile_append_of_pos passes]
  simp

theorem ofText_attached {following : List Char} (known : Flag.ofSpelling? spelling = some flag)
    (long : Flag.isLong spelling = true) (dashed : spelling.toList = '-' :: following)
    (value : String) : ofText (spelling ++ "=" ++ value) = .ok (.flag flag (some value)) := by
  have chars : (spelling ++ "=" ++ value).toList = '-' :: (following ++ '=' :: value.toList) := by
    simp [dashed]
  have other {text : String} (plain : '=' ∉ text.toList) : spelling ++ "=" ++ value ≠ text := by
    rintro rfl
    simp [chars] at plain
  have unknown : Flag.ofSpelling? (spelling ++ "=" ++ value) = none := by
    cases found : Flag.ofSpelling? (spelling ++ "=" ++ value) with
    | none => rfl
    | some flag => exact absurd rfl (other (Flag.equals_not_mem found))
  have split := splitAtEquals_attached (Flag.equals_not_mem known) value
  have whole : ¬((spelling ++ "=" ++ value).toList.length < 2 ∨
      (spelling ++ "=" ++ value).toList.head? ≠ some '-') := by
    rw [chars]
    rintro (short | bare)
    · simp only [List.length_cons, List.length_append] at short
      omega
    · exact bare rfl
  rw [ofText, if_neg (other (by decide)), if_neg whole, unknown]
  simp only [split, known, if_pos long]

theorem ofTexts_cons (read : ofText text = .ok word) (other : word ≠ .separator) :
    ofTexts (text :: rest) = (word :: ·) <$> ofTexts rest := by
  rw [ofTexts, read]
  simp only [bind, Except.bind, if_neg other]
  rfl

end Word

namespace Argument

/-- What the words of an argument are. -/
def words : Argument → List Word
  | file path => [.value path]
  | input text => [.flag .input (some text)]
  | breakpoints on => [.flag (if on then .breakpoints else .noBreakpoints) none]
  | verbose => [.flag .verbose none]
  | step => [.flag .step none]
  | window attached number =>
    if attached then [.flag .window (some number)] else [.flag .window none, .value number]
  | logLevel attached name =>
    if attached then [.flag .logLevel (some name)] else [.flag .logLevel none, .value name]

theorem separator_not_mem (argument : Argument) : .separator ∉ argument.words := by
  cases argument with
  | window attached number => cases attached <;> simp [words]
  | logLevel attached name => cases attached <;> simp [words]
  | _ => simp [words]

theorem ofTexts_valued {spelling value : String} {flag : Flag} {following : List Char}
    {rest : List String} {attached : Bool} (known : Flag.ofSpelling? spelling = some flag)
    (long : Flag.isLong spelling = true) (dashed : spelling.toList = '-' :: following)
    (alone : Word.ofText spelling = .ok (.flag flag none))
    (standalone : attached = true ∨ Standalone value) :
    Word.ofTexts (valued spelling attached value ++ rest) =
      ((if attached then [.flag flag (some value)] else [.flag flag none, .value value]) ++ ·) <$>
        Word.ofTexts rest := by
  cases attached with
  | true =>
    exact Word.ofTexts_cons (Word.ofText_attached known long dashed value) (by simp)
  | false =>
    have value' := standalone.resolve_left (by simp)
    change Word.ofTexts (spelling :: value :: rest) = _
    rw [Word.ofTexts_cons alone (by simp), Word.ofTexts_cons value' (by simp)]
    cases Word.ofTexts rest <;> rfl

theorem ofTexts_append (valid : argument.Valid) (rest : List String) :
    Word.ofTexts (argument.texts ++ rest) = (argument.words ++ ·) <$> Word.ofTexts rest := by
  have alone {spelling : String} {flag : Flag}
      (read : Word.ofText spelling = .ok (.flag flag none)) :
      Word.ofTexts ([spelling] ++ rest) = ([.flag flag none] ++ ·) <$> Word.ofTexts rest :=
    Word.ofTexts_cons read (by simp)
  cases argument with
  | file path => exact Word.ofTexts_cons valid (by simp)
  | input text =>
    have known : Flag.ofSpelling? "--input" = some .input := rfl
    exact ofTexts_valued known (by decide +kernel) rfl rfl (.inl rfl)
  | breakpoints on =>
    cases on with
    | true => exact alone rfl
    | false => exact alone rfl
  | verbose => exact alone rfl
  | step => exact alone rfl
  | window attached number =>
    have known : Flag.ofSpelling? "--window" = some .window := rfl
    exact ofTexts_valued known (by decide +kernel) rfl rfl valid.2
  | logLevel attached name =>
    have known : Flag.ofSpelling? "--log-level" = some .logLevel := rfl
    exact ofTexts_valued known (by decide +kernel) rfl rfl valid.2

end Argument

theorem ofTexts_flatMap (valid : ∀ argument ∈ arguments, argument.Valid) :
    Word.ofTexts (arguments.flatMap Argument.texts) =
      .ok (arguments.flatMap Argument.words) := by
  induction arguments with
  | nil => rfl
  | cons argument arguments ih =>
    obtain ⟨first, later⟩ := List.forall_mem_cons.mp valid
    rw [List.flatMap_cons, Argument.ofTexts_append first, ih later]
    rfl

namespace Settings

variable {state : Partial} {settings : Settings} {flag : Flag} {value path : String}
  {rest : List Word}

theorem read_value (missing : state.file = none) (plain : .separator ∉ rest) :
    read state (.value path :: rest) = read { state with file := some path } rest := by
  cases rest with
  | nil => simp [read, missing]
  | cons word rest =>
    cases word with
    | separator => simp at plain
    | _ => simp [read, missing]

theorem read_alone (takes : flag.takesValue = false)
    (raised : state.settings.raise flag = .ok settings) :
    read state (.flag flag none :: rest) = read { state with settings } rest := by
  cases rest with
  | nil => simp [read, raised, bind, Except.bind]
  | cons word rest => cases word <;> simp [read, raised, takes, bind, Except.bind]

theorem read_attached (assigned : state.settings.assign flag value = .ok settings) :
    read state (.flag flag (some value) :: rest) = read { state with settings } rest := by
  simp [read, assigned, bind, Except.bind]

theorem read_following (takes : flag.takesValue = true)
    (assigned : state.settings.assign flag value = .ok settings) :
    read state (.flag flag none :: .value value :: rest) = read { state with settings } rest := by
  simp [read, assigned, takes, bind, Except.bind]

end Settings

namespace Argument

/-- The settings with what an argument asks for; the file is kept elsewhere. -/
def apply (settings : Settings) : Argument → Settings
  | file _ => settings
  | input text => { settings with input := some (Settings.text text) }
  | breakpoints on => { settings with breakpoints := on }
  | verbose => { settings with verbose := true }
  | step => { settings with step := true }
  | window _ number => { settings with window := .given ((Text.integer? number).getD 0) }
  | logLevel _ name => { settings with logLevel := .given name }

/-- A mode is not asked for beside the other one. -/
def Compatible (settings : Settings) : Argument → Prop
  | verbose => settings.step = false
  | step => settings.verbose = false
  | file _ | input _ | breakpoints _ | window _ _ | logLevel _ _ => True

theorem assign_window {settings : Settings} {number : String}
    (numeral : (Text.integer? number).isSome) :
    settings.assign .window number =
      .ok { settings with window := .given ((Text.integer? number).getD 0) } := by
  obtain ⟨value, found⟩ := Option.isSome_iff_exists.mp numeral
  have other : number ≠ Word.separatorText := by
    rintro rfl
    have none : Text.integer? Word.separatorText = none := by decide
    simp [none] at found
  simp [Settings.assign, Settings.integer, other, found, bind, Except.bind]
  rfl

theorem assign_logLevel {settings : Settings} {name : String} (named : NamesLevel name) :
    settings.assign .logLevel name = .ok { settings with logLevel := .given name } := by
  rw [Settings.assign, named.1]

theorem read_words {state : Settings.Partial} {rest : List Word} (valid : argument.Valid)
    (alone : state.file = none ∨ argument.file? = none)
    (compatible : argument.Compatible state.settings) (plain : .separator ∉ rest) :
    Settings.read state (argument.words ++ rest) =
      Settings.read { state with
        settings := argument.apply state.settings
        file := argument.file?.or state.file } rest := by
  cases argument with
  | file path =>
    exact Settings.read_value (alone.resolve_right (by simp [file?])) plain
  | input text => exact Settings.read_attached rfl
  | breakpoints on => cases on <;> exact Settings.read_alone rfl rfl
  | verbose =>
    have raised : state.settings.raise .verbose = .ok { state.settings with verbose := true } :=
      if_neg (by simp [show state.settings.step = false from compatible])
    exact Settings.read_alone rfl raised
  | step =>
    have raised : state.settings.raise .step = .ok { state.settings with step := true } :=
      if_neg (by simp [show state.settings.verbose = false from compatible])
    exact Settings.read_alone rfl raised
  | window attached number =>
    cases attached with
    | true => exact Settings.read_attached (assign_window valid.1)
    | false => exact Settings.read_following rfl (assign_window valid.1)
  | logLevel attached name =>
    cases attached with
    | true => exact Settings.read_attached (assign_logLevel valid.1)
    | false => exact Settings.read_following rfl (assign_logLevel valid.1)

/-- It is not asked for two modes, by the settings or by further arguments. -/
def OneMode (settings : Settings) (arguments : List Argument) : Prop :=
  ¬ ((settings.verbose = true ∨ verbose ∈ arguments) ∧ (settings.step = true ∨ step ∈ arguments))

theorem OneMode.compatible {settings : Settings}
    (oneMode : OneMode settings (argument :: arguments)) : argument.Compatible settings := by
  cases argument <;> simp_all [OneMode, Compatible]

theorem OneMode.apply {settings : Settings}
    (oneMode : OneMode settings (argument :: arguments)) :
    OneMode (argument.apply settings) arguments := by
  cases argument <;> simp_all [OneMode, Argument.apply]

end Argument

/-- Arguments are read as what they ask for, if there is one file among them. -/
theorem read_arguments {state : Settings.Partial} {file : String}
    (valid : ∀ argument ∈ arguments, argument.Valid)
    (files : state.file.toList ++ arguments.filterMap Argument.file? = [file])
    (oneMode : Argument.OneMode state.settings arguments) :
    Settings.read state (arguments.flatMap Argument.words) = .ok { state with
      settings := arguments.foldl Argument.apply state.settings
      file := some file } := by
  induction arguments generalizing state with
  | nil =>
    have same : state.file = some file := by
      cases found : state.file <;> simp_all
    rw [List.flatMap_nil, Settings.read, List.foldl_nil, ← same]
  | cons argument arguments ih =>
    obtain ⟨first, later⟩ := List.forall_mem_cons.mp valid
    have plain : .separator ∉ arguments.flatMap Argument.words := by
      simp [List.mem_flatMap, Argument.separator_not_mem]
    have once : (state.file = none ∨ argument.file? = none) ∧
        (argument.file?.or state.file).toList ++ arguments.filterMap Argument.file? = [file] := by
      cases known : state.file <;> cases found : argument.file? <;> simp_all
    rw [List.flatMap_cons, Argument.read_words first once.1 oneMode.compatible plain,
      ih later once.2 oneMode.apply]
    rfl

/-- The settings are those of a run without a limit. -/
structure Settings.Ordinary (settings : Settings) : Prop where
  unlimited : settings.maxSteps = none
  unexpanded : settings.expand = false
  window : ∃ number, settings.window = .given number
  level : ∃ level, settings.level = .ok level

theorem Settings.Ordinary.apply {settings : Settings} (ordinary : settings.Ordinary)
    (valid : argument.Valid) : (argument.apply settings).Ordinary := by
  obtain ⟨unlimited, unexpanded, window, level⟩ := ordinary
  cases argument with
  | window attached number => exact ⟨unlimited, unexpanded, ⟨_, rfl⟩, level⟩
  | logLevel attached name =>
    exact ⟨unlimited, unexpanded, window, valid.1.2⟩
  | _ => exact ⟨unlimited, unexpanded, window, level⟩

theorem Settings.Ordinary.foldl {settings : Settings} (ordinary : settings.Ordinary)
    (valid : ∀ argument ∈ arguments, argument.Valid) :
    (arguments.foldl Argument.apply settings).Ordinary := by
  induction arguments generalizing settings with
  | nil => exact ordinary
  | cons argument arguments ih =>
    obtain ⟨first, later⟩ := List.forall_mem_cons.mp valid
    exact ih (ordinary.apply first) later

theorem input_foldl (settings : Settings) :
    (arguments.foldl Argument.apply settings).input =
      (arguments.filterMap Argument.input?).foldl (fun _ text => some (Settings.text text))
        settings.input := by
  induction arguments generalizing settings with
  | nil => rfl
  | cons argument arguments ih =>
    rw [List.foldl_cons, ih]
    cases argument <;> rfl

/-- The settings of a command line are what its arguments make of the ordinary ones. -/
theorem CommandLine.ofArguments_eq {file input : String} (line : CommandLine file input arguments) :
    Settings.ofArguments (arguments.flatMap Argument.texts) =
      .ok { arguments.foldl Argument.apply { file := "" } with file } := by
  have read : Settings.read {} (arguments.flatMap Argument.words) = .ok
      { settings := arguments.foldl Argument.apply { file := "" }, file := some file } :=
    read_arguments line.valid (by simpa using line.files)
      (by simpa [Argument.OneMode] using line.oneMode)
  rw [Settings.ofArguments, ofTexts_flatMap line.valid]
  simp [read, bind, Except.bind]
  rfl

/-- The command line of a run asks for the file and for the input, whatever else it asks for. -/
theorem CommandLine.exists_settings {file input : String}
    (line : CommandLine file input arguments) :
    ∃ settings, Settings.ofArguments (arguments.flatMap Argument.texts) = .ok settings ∧
      settings.file = file ∧ settings.input = some (Settings.text input) ∧
      settings.Ordinary := by
  have named : Argument.NamesLevel "warning" := Argument.namesLevel_of_ne (by decide) (by decide)
  have initial : Settings.Ordinary { file := "" } := ⟨rfl, rfl, ⟨8, rfl⟩, named.2⟩
  have ordinary := initial.foldl line.valid
  refine ⟨_, line.ofArguments_eq, rfl, ?_,
    ordinary.unlimited, ordinary.unexpanded, ordinary.window, ordinary.level⟩
  change (arguments.foldl Argument.apply { file := "" }).input = _
  rw [input_foldl, line.inputs]
  rfl

end Brainfuck.Command
