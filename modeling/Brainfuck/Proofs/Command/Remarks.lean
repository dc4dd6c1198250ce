import Brainfuck.Proofs.Command.Following

namespace Brainfuck

namespace Machine

/-- The next instruction is a breakpoint, and attention is paid to it. -/
def breaks (options : Session.Options) (machine : Machine) : Bool :=
  options.breakpoints && machine.visits

/-- The operator is asked behind the next instruction: if it is a breakpoint, and in step mode if
it does not lead to the end. -/
def prompts (options : Session.Options) (machine : Machine) : Bool :=
  machine.executes && (machine.breaks options ||
    decide (options.mode = .step ∧ machine.stepped.engine.status ≠ .halted))

/-- Behind how many instructions the operator has been asked. -/
def promptsBefore (options : Session.Options) (start : Machine) (count : Nat) : Nat :=
  (List.range count).countP fun earlier => (start.afterCalls earlier).prompts options

/-- What a session shows of the next instruction. -/
def view (options : Session.Options) (machine : Machine) : Option Observation :=
  Session.observe
    { options, engine := machine.stepped.engine, status := machine.stepped.engine.status }

variable {options : Session.Options} {machine : Machine}

theorem executes_of_visits (visited : machine.visits = true) : machine.executes = true := by
  have unfailed := Status.isFailed_eq_false (not_failed_of_visits visited)
  have running := (visits_iff.mp visited).1
  simp [executes, attempts, unfailed, running]

theorem prompts_of_breaks (broken : machine.breaks options = true) :
    machine.prompts options = true := by
  have visited : machine.visits = true := (Bool.and_eq_true_iff.mp broken).2
  simp [prompts, broken, executes_of_visits visited]

theorem unfinished_of_executes (executes : machine.executes = true) :
    machine.engine.finished = false := by
  have attempted : machine.attempts = true := (Bool.and_eq_true_iff.mp executes).1
  simpa [attempts] using attempted

theorem unfinished_of_prompts (prompted : machine.prompts options = true) :
    machine.engine.finished = false :=
  unfinished_of_executes (Bool.and_eq_true_iff.mp prompted).1

theorem promptsBefore_succ (options : Session.Options) (start : Machine) (count : Nat) :
    start.promptsBefore options (count + 1) =
      start.promptsBefore options count +
        if (start.afterCalls count).prompts options then 1 else 0 := by
  rw [promptsBefore, List.range_succ, List.countP_append, List.countP_singleton]
  rfl

theorem promptsBefore_mono (options : Session.Options) (start : Machine) {first last : Nat}
    (less : first ≤ last) :
    start.promptsBefore options first ≤ start.promptsBefore options last :=
  (List.range_sublist.mpr less).countP_le

theorem promptsBefore_lt {start : Machine} {first last : Nat} (less : first < last)
    (prompted : (start.afterCalls first).prompts options = true) :
    start.promptsBefore options first < start.promptsBefore options last := by
  have next := promptsBefore_mono options start (Nat.succ_le_of_lt less)
  rw [Nat.succ_eq_add_one, promptsBefore_succ, if_pos prompted] at next
  omega

end Machine

namespace Command

/-- What is written to error output while instructions are executed. -/
inductive Remark where
  | showed (observation : Observation)
  | logged (message : String)
  | asked (prompt : String)

namespace Remark

def isPrompt : Remark → Bool
  | asked _ => true
  | showed _ | logged _ => false

/-- The text of a remark, at a level of log messages and at a time. -/
def text (level : Level) (clock : String) : Remark → String
  | showed observation =>
    match observation.text with
    | .ok text => s!"\n{text}\n"
    | .error _ => ""
  | logged message =>
    if level.rank ≤ Level.debug.rank then s!"{clock} [{Level.debug.name}] {message}\n" else ""
  | asked prompt => prompt

/-- The view of the next instruction, which is there unless nothing has been executed. -/
def ofView (options : Session.Options) (machine : Machine) : List Remark :=
  (machine.view options).toList.map showed

/-- What is said of a breakpoint before the session goes on. -/
def ofBreakpoint (options : Session.Options) (machine : Machine) : List Remark :=
  let index := machine.engine.ip
  logged s!"breakpoint hit at instruction {index}" :: ofView options machine ++
    [asked s!"[{(Status.pausedAtBreakpoint index).text}] Enter to resume, q to stop: "]

/-- What is said of the next instruction before anything is said of a breakpoint. -/
def ofStep (options : Session.Options) (machine : Machine) : List Remark :=
  (if options.mode = .silent then [] else ofView options machine) ++
    if !machine.breaks options && machine.prompts options then
      [asked "[step] Enter to continue, q to stop: "]
    else []

/-- All that is said of the next instruction of a machine. -/
def ofMachine (options : Session.Options) (machine : Machine) : List Remark :=
  ofStep options machine ++ if machine.breaks options then ofBreakpoint options machine else []

/-- All that is said of a number of instructions. -/
def before (options : Session.Options) (start : Machine) (count : Nat) : List Remark :=
  (List.range count).flatMap fun earlier => ofMachine options (start.afterCalls earlier)

end Remark

/-- How many of the remarks are prompts. -/
def prompts (remarks : List Remark) : Nat := remarks.countP Remark.isPrompt

section counting

variable {options : Session.Options} {start machine : Machine} {count : Nat}
  (first second : List Remark)

@[simp]
theorem prompts_append : prompts (first ++ second) = prompts first + prompts second :=
  List.countP_append

@[simp]
theorem prompts_nil : prompts [] = 0 := rfl

theorem prompts_ofView (options : Session.Options) (machine : Machine) :
    prompts (Remark.ofView options machine) = 0 := by
  rw [prompts, List.countP_eq_zero]
  intro remark made
  obtain ⟨observation, -, rfl⟩ := List.mem_map.mp made
  simp [Remark.isPrompt]

theorem prompts_ofBreakpoint (options : Session.Options) (machine : Machine) :
    prompts (Remark.ofBreakpoint options machine) = 1 := by
  have shown := prompts_ofView options machine
  unfold prompts at shown
  simp [Remark.ofBreakpoint, prompts, shown, Remark.isPrompt]

theorem prompts_ofMachine (options : Session.Options) (machine : Machine) :
    prompts (Remark.ofMachine options machine) = if machine.prompts options then 1 else 0 := by
  have shown :
      prompts (if options.mode = .silent then [] else Remark.ofView options machine) = 0 := by
    split
    · rfl
    · exact prompts_ofView options machine
  rw [Remark.ofMachine, Remark.ofStep, prompts_append, prompts_append, shown]
  cases broken : machine.breaks options with
  | true => simp [Machine.prompts_of_breaks broken, prompts_ofBreakpoint]
  | false => cases machine.prompts options <;> simp [prompts, Remark.isPrompt]

theorem prompts_ofStep {machine : Machine} (broken : machine.breaks options = true) :
    prompts (Remark.ofStep options machine) = 0 := by
  have all := prompts_ofMachine options machine
  rw [Remark.ofMachine, prompts_append, if_pos broken, prompts_ofBreakpoint,
    if_pos (Machine.prompts_of_breaks broken)] at all
  omega

theorem before_succ (options : Session.Options) (start : Machine) (count : Nat) :
    Remark.before options start (count + 1) =
      Remark.before options start count ++ Remark.ofMachine options (start.afterCalls count) := by
  simp [Remark.before, List.range_succ]

/-- As many prompts are shown as instructions are asked about. -/
theorem prompts_before (options : Session.Options) (start : Machine) (count : Nat) :
    prompts (Remark.before options start count) = start.promptsBefore options count := by
  induction count with
  | zero => rfl
  | succ count ih =>
    rw [before_succ, prompts_append, prompts_ofMachine, ih, Machine.promptsBefore_succ]

end counting

namespace Console

/-- The program reads what the streams hold and has written what they hold. Since the console was
opened the remarks were made, and each prompt has taken a line. -/
structure Said (opened : Console) (lines : List (List Char)) (remarks : List Remark)
    (console : Console) (streams : Streams) : Prop where
  feed : ∃ fed, console.feed = some fed ∧ fed.input = streams.input
  output : console.output = textOfOutput streams.output
  typing : console.typing = .ok ⟨lines.drop (prompts remarks), false⟩
  errors : console.errors =
    opened.errors ++ String.join (remarks.map (Remark.text opened.level opened.clock))
  level : console.level = opened.level
  clock : console.clock = opened.clock

variable {opened console : Console} {lines : List (List Char)} {remarks : List Remark}
  {streams : Streams}

namespace Said

theorem errors_concat (said : Said opened lines remarks console streams) (remark : Remark) :
    console.errors ++ remark.text opened.level opened.clock =
      opened.errors ++
        String.join ((remarks ++ [remark]).map (Remark.text opened.level opened.clock)) := by
  rw [said.errors, List.map_append, String.join_append, List.map_singleton, String.join_cons,
    String.join_nil, String.append_empty, String.append_assoc]

theorem print {remark : Remark} {text : String} (said : Said opened lines remarks console streams)
    (told : remark.text opened.level opened.clock = text) (unasked : remark.isPrompt = false) :
    Said opened lines (remarks ++ [remark]) (console.print text) streams where
  feed := said.feed
  output := said.output
  typing := by
    have same : prompts [remark] = 0 := by simp [prompts, unasked]
    rw [prompts_append, same]
    exact said.typing
  errors := by rw [← said.errors_concat, told]; rfl
  level := said.level
  clock := said.clock

theorem log (said : Said opened lines remarks console streams) (message : String) :
    Said opened lines (remarks ++ [.logged message]) (console.log .debug message) streams := by
  unfold Console.log
  rw [said.level, said.clock]
  split
  · next loud => exact said.print (by rw [Remark.text, if_pos loud]) rfl
  · next quiet =>
    have unheard : Remark.text opened.level opened.clock (.logged message) = "" := by
      rw [Remark.text, if_neg quiet]
    have kept := said.print unheard rfl
    rwa [Console.print, String.append_empty] at kept

theorem putChar (said : Said opened lines remarks console streams) (value : UInt8) :
    Said opened lines remarks (console.putChar (Char.ofNat value.toNat)) (streams.write value) :=
  ⟨said.feed, output_putChar said.output value, said.typing, said.errors, said.level, said.clock⟩

theorem read (said : Said opened lines remarks console streams) :
    ∃ after, console.read = (streams.read.1, after) ∧
      Said opened lines remarks after streams.read.2 := by
  obtain ⟨fed, held, same⟩ := said.feed
  obtain ⟨left, taken, fed', written⟩ := read_of_feed held same
  exact ⟨_, taken, ⟨left, rfl, fed'⟩, written ▸ said.output, said.typing, said.errors, said.level,
    said.clock⟩

/-- The answer to a prompt is the next line. Whoever has typed no more agrees to go on. -/
theorem ask (said : Said opened lines remarks console streams) (prompt : String) :
    ∃ after, console.ask prompt = (.ok !isQuit (lines.getD (prompts remarks) []), after) ∧
      Said opened lines (remarks ++ [.asked prompt]) after streams := by
  have shown : (console.print prompt).typing = .ok ⟨lines.drop (prompts remarks), false⟩ :=
    said.typing
  have one : prompts [.asked prompt] = 1 := rfl
  have later (rest : List (List Char)) (same : rest = lines.drop (prompts remarks + 1)) :
      Said opened lines (remarks ++ [.asked prompt])
        { console.print prompt with bytes := [], typed := some ⟨rest, false⟩ } streams := by
    refine ⟨said.feed, said.output, ?_, said.errors_concat (.asked prompt), said.level, said.clock⟩
    rw [prompts_append, one, ← same]
    rfl
  cases left : lines.drop (prompts remarks) with
  | nil =>
    have exhausted : lines.length ≤ prompts remarks := List.drop_eq_nil_iff.mp left
    rw [left] at shown
    refine ⟨_, ?_, later [] (List.drop_eq_nil_of_le (by omega)).symm⟩
    rw [List.getD_eq_getElem?_getD, List.getElem?_eq_none exhausted]
    simp only [Console.ask, shown]
    rfl
  | cons line rest =>
    rw [left] at shown
    have found : lines.getD (prompts remarks) [] = line := by
      have head := congrArg List.head? left
      rw [List.head?_drop] at head
      rw [List.getD_eq_getElem?_getD, head]
      rfl
    refine ⟨_, ?_, later rest ?_⟩
    · rw [found]
      simp only [Console.ask, shown]
    · rw [← List.drop_drop, left]
      rfl

end Said
end Console
end Command
end Brainfuck
