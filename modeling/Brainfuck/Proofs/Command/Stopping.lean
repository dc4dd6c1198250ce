import Brainfuck.Proofs.Command.Allowance
import Brainfuck.Proofs.Command.Remarks

/-! Where the operator stops a command. The prompts of a run come in the order of the instructions
behind which they are shown, whether the session shows them or the command that drives it; the
first one that is answered with a wish to stop is the last. -/

namespace Brainfuck

namespace Machine

/-- The status of a session behind the next instruction, where a line is typed at the prompt. -/
def answered (options : Session.Options) (machine : Machine) (line : List Char) : Status :=
  if machine.breaks options then .pausedAtBreakpoint machine.engine.ip
  else if machine.prompts options && Command.Console.isQuit line then
    .pausedForStep machine.engine.ip
  else machine.stepped.engine.status

end Machine

namespace Command

open Session (Yields leave enter)
open Console (Said isQuit)

variable {opened : Console} {lines : List (List Char)} {remarks : List Remark}
  {options : Session.Options} {start machine : Machine} {state before : Session × Console}
  {block : Block} {streams : Streams} {observation : Observation}

theorem listeners_serve : listeners.Serves (Said opened lines remarks) where
  output value state streams _ said :=
    ⟨(), (state.1, state.2.putChar (Char.ofNat value.toNat)), rfl, trivial, rfl,
      said.putChar value⟩
  input state streams _ said := by
    obtain ⟨console, read, said'⟩ := said.read
    refine ⟨streams.read.1, (state.1, console), ?_, rfl, rfl, said'⟩
    change (Except.ok state.2.read.1, state.1, state.2.read.2) = _
    rw [read]

theorem Console.Said.display (said : Said opened lines remarks state.2 streams)
    (legible : observation.Legible) :
    ∃ after, Action.display observation state = (.ok (), state.1, after) ∧
      Said opened lines (remarks ++ [.showed observation]) after streams := by
  obtain ⟨text, shown⟩ := legible.exists_text
  have told : Remark.text opened.level opened.clock (.showed observation) = s!"\n{text}\n" := by
    rw [Remark.text, shown]
  refine ⟨state.2.print s!"\n{text}\n", ?_, said.print told rfl⟩
  simp only [Action.display, shown]
  rfl

theorem observe_eq_view (engine : state.1.engine = machine.stepped.engine)
    (same : state.1.options = options) : state.1.observe = machine.view options := by
  simp only [Session.observe, Machine.view, engine, same]

theorem report_tells {index : Int}
    (follows : Session.Follows (Said opened lines remarks) options machine.stepped state)
    (placed : machine.stepped.Placed (block.instructions 0)) (behind : state.1.Behind index) :
    Yields (Session.report listeners options.mode) state fun _ after =>
      Session.Follows (Said opened lines (remarks ++
          if options.mode = .silent then [] else Remark.ofView options machine))
        options machine.stepped after := by
  by_cases silent : options.mode = .silent
  · rw [Session.report_of_unheard (.inl silent), if_pos silent, List.append_nil]
    exact Yields.pure follows
  · obtain ⟨observation, observed⟩ := behind.exists_observe
    have seen := (observe_eq_view follows.engine follows.options).symm.trans observed
    have heard : listeners.observer = some Action.display := rfl
    have legible := Session.legible_of_observe placed follows.engine observed
    obtain ⟨console, displayed, said⟩ := follows.streams.display legible
    rw [Yields, Session.report_of_observed silent heard observed, bind_apply, displayed,
      if_neg silent, Remark.ofView, seen]
    exact Yields.pure ⟨follows.active, follows.options, follows.eager, follows.engine, said⟩

theorem breaks_iff (placed : machine.Placed (block.instructions 0))
    (running : machine.engine.finished = false) :
    machine.breaks options = true ↔ options.breakpoints = true ∧
      machine.stepped.engine.program.at? machine.engine.ip = some .breakpoint := by
  rw [placed.step.2.program_eq, Machine.breaks, Bool.and_eq_true_iff, Machine.visits_iff]
  simp only [running, true_and]

theorem consult_tells {index : Int} (status : Status) (seen : Option Observation)
    (follows : Session.Follows (Said opened lines remarks) options machine.stepped state)
    (behind : state.1.Behind index) :
    Yields (Session.consult listeners true index status seen) state fun answer after =>
      answer = (if isQuit (lines.getD (prompts remarks) []) then .pausedForStep index
        else status) ∧
      Session.Follows (Said opened lines
          (remarks ++ [.asked "[step] Enter to continue, q to stop: "]))
        options machine.stepped after := by
  obtain ⟨observation, found⟩ : ∃ observation, (seen <|> state.1.observe) = some observation := by
    cases seen with
    | none => exact behind.exists_observe
    | some observation => exact ⟨observation, rfl⟩
  obtain ⟨console, answered, said⟩ := follows.streams.ask "[step] Enter to continue, q to stop: "
  have heard : listeners.acknowledge =
    some fun _ => Action.ask "[step] Enter to continue, q to stop: " := rfl
  have asked : Action.ask "[step] Enter to continue, q to stop: " state =
      (.ok !isQuit (lines.getD (prompts remarks) []), state.1, console) := by
    simp only [Action.ask, answered]
  rw [Yields, Session.consult_of_asked heard found, bind_apply, asked]
  have follows' : Session.Follows (Said opened lines
      (remarks ++ [.asked "[step] Enter to continue, q to stop: "])) options machine.stepped
      (state.1, console) :=
    ⟨follows.active, follows.options, follows.eager, follows.engine, said⟩
  cases isQuit (lines.getD (prompts remarks) []) with
  | true => exact Yields.pure ⟨rfl, follows'⟩
  | false => exact Yields.pure ⟨rfl, follows'⟩

theorem settle_tells (seen : Option Observation)
    (follows : Session.Follows (Said opened lines remarks) options machine.stepped state)
    (placed : machine.Placed (block.instructions 0)) (executes : machine.executes = true) :
    Yields (Session.settle listeners true machine.engine.ip machine.stepped.engine.status
        options.mode seen) state fun status after =>
      status = machine.answered options (lines.getD (prompts remarks) []) ∧
      Session.Follows (Said opened lines (remarks ++
          if !machine.breaks options && machine.prompts options then
            [.asked "[step] Enter to continue, q to stop: "]
          else []))
        options machine.stepped after := by
  have running := Machine.unfinished_of_executes executes
  have behind := Session.behind_of_stepped placed running follows.engine
  have broken : machine.breaks options = true ↔ _ := breaks_iff placed running
  have unasked {asked : Prop} [Decidable asked] (never : ¬ asked) :
      Session.Follows (Said opened lines (remarks ++
          if asked then [.asked "[step] Enter to continue, q to stop: "] else []))
        options machine.stepped state := by
    rwa [if_neg never, List.append_nil]
  rw [Yields, behind.settle_eq, follows.options, follows.engine]
  cases breaks : machine.breaks options with
  | true =>
    rw [if_pos (broken.mp breaks)]
    exact Yields.pure ⟨by rw [Machine.answered, if_pos breaks], unasked (by simp)⟩
  | false =>
    have unbroken : ¬ machine.breaks options = true := by simp [breaks]
    rw [if_neg (mt broken.mpr unbroken)]
    have prompted : machine.prompts options =
        decide (options.mode = .step ∧ machine.stepped.engine.status ≠ .halted) := by
      rw [Machine.prompts, executes, breaks, Bool.true_and, Bool.false_or]
    rw [Machine.answered, if_neg unbroken, prompted]
    by_cases halted : machine.stepped.engine.status = .halted
    · rw [if_pos halted]
      exact Yields.pure ⟨by simp [halted], unasked (by simp [halted])⟩
    · rw [if_neg halted]
      by_cases mode : options.mode = .step
      · rw [if_pos mode]
        have answered := consult_tells machine.stepped.engine.status seen follows behind
        simpa [Yields, mode, halted] using answered
      · rw [if_neg mode]
        exact Yields.pure ⟨by simp [mode], unasked (by simp [mode])⟩

/-- The session executes the next instruction, and says what there is to say of it before anything
is said of a breakpoint. -/
theorem advance_tells
    (follows : Session.Follows (Said opened lines remarks) options machine state)
    (placed : machine.Placed (block.instructions 0)) (executes : machine.executes = true) :
    Yields (Session.advance listeners true) state fun status after =>
      status = machine.answered options (lines.getD (prompts remarks) []) ∧
        Session.Follows (Said opened lines (remarks ++ Remark.ofStep options machine)) options
          machine.stepped after := by
  have running := Machine.unfinished_of_executes executes
  have unfinished : state.1.engine.finished = false := by rw [follows.engine, running]
  obtain ⟨stepped, turn⟩ := placed.step
  obtain ⟨_, middle, executed, rfl, follows'⟩ := follows.execute listeners_serve stepped
  rw [Yields, Session.advance_of_executed unfinished executed, follows.engine]
  have unfailed (underflow : Underflow) : machine.stepped.engine.status ≠ .failed underflow := by
    intro failed
    rw [Machine.executes, failed] at executes
    simp [Status.isFailed] at executes
  rw [Session.attend_of_unfailed unfailed, follows'.options]
  have behind := Session.behind_of_stepped placed running follows'.engine
  refine (report_tells follows' turn.placed behind).bind fun seen after told => ?_
  have same : prompts (remarks ++
      if options.mode = .silent then [] else Remark.ofView options machine) = prompts remarks := by
    rw [prompts_append]
    split
    · rfl
    · rw [prompts_ofView, Nat.add_zero]
  have settled := settle_tells seen told placed executes
  rw [same, List.append_assoc] at settled
  exact settled

/-- Behind a breakpoint the state is shown, and the prompt takes a line. -/
theorem question_tells (engine : state.1.engine = machine.stepped.engine)
    (same : state.1.options = options) (said : Said opened lines remarks state.2 streams)
    (placed : machine.stepped.Placed (block.instructions 0)) (index : Int) :
    ∃ console, question index state =
        (.ok !isQuit (lines.getD (prompts remarks) []), state.1, console) ∧
      Said opened lines (remarks ++ Remark.ofView options machine ++
        [.asked s!"[{(Status.pausedAtBreakpoint index).text}] Enter to resume, q to stop: "])
        console streams := by
  have revealed : ∃ console, reveal state = (.ok (), state.1, console) ∧
      Said opened lines (remarks ++ Remark.ofView options machine) console streams := by
    have seen := observe_eq_view engine same
    rw [reveal_apply]
    cases observed : state.1.observe with
    | none =>
      rw [observed] at seen
      refine ⟨state.2, rfl, ?_⟩
      rw [Remark.ofView, ← seen]
      simpa using said
    | some observation =>
      rw [observed] at seen
      have legible := Session.legible_of_observe placed engine observed
      obtain ⟨console, displayed, said'⟩ := said.display legible
      refine ⟨console, displayed, ?_⟩
      rw [Remark.ofView, ← seen]
      exact said'
  obtain ⟨console, shown, said'⟩ := revealed
  obtain ⟨after, answered, said''⟩ :=
    said'.ask s!"[{(Status.pausedAtBreakpoint index).text}] Enter to resume, q to stop: "
  rw [prompts_append, prompts_ofView, Nat.add_zero] at answered
  refine ⟨after, ?_, said''⟩
  rw [question, bind_apply, shown]
  simp only [Action.ask, answered]

/-- The operator is asked behind an instruction, and the line at that prompt is the first one that
asks to stop. -/
structure StopsAt (options : Session.Options) (start : Machine) (lines : List (List Char))
    (last : Nat) : Prop where
  prompted : (start.afterCalls last).prompts options = true
  quits : isQuit (lines.getD (start.promptsBefore options last) []) = true
  agrees : ∀ prompt < start.promptsBefore options last, isQuit (lines.getD prompt []) = false

namespace StopsAt

variable {first last : Nat} (stops : StopsAt options start lines last)
include stops

theorem unfinished (within : first ≤ last) : (start.afterCalls first).engine.finished = false := by
  cases finished : (start.afterCalls first).engine.finished with
  | false => rfl
  | true =>
    have running := Machine.unfinished_of_prompts stops.prompted
    rw [Machine.afterCalls_of_finished finished within, finished] at running
    cases running

theorem executes (within : first ≤ last) : (start.afterCalls first).executes = true := by
  rcases Nat.lt_or_eq_of_le within with less | rfl
  · have running := stops.unfinished within
    have goesOn := stops.unfinished (Nat.succ_le_of_lt less)
    have unfailed := Status.isFailed_eq_false (Engine.not_failed_of_running goesOn)
    rw [Machine.executes, Machine.attempts, running]
    exact congrArg not unfailed
  · exact (Bool.and_eq_true_iff.mp stops.prompted).1

theorem agreed (less : first < last)
    (prompted : (start.afterCalls first).prompts options = true) :
    isQuit (lines.getD (start.promptsBefore options first) []) = false :=
  stops.agrees _ (Machine.promptsBefore_lt less prompted)

end StopsAt

/-- Where a run pauses on its way to the place where the operator stops it: behind a breakpoint, or
there. -/
inductive Pauses (opened : Console) (lines : List (List Char)) (options : Session.Options)
    (start : Machine) (first last : Nat) : Option Status → Session × Console → Prop where
  | broken {place : Nat} {left : Session × Console} (above : first ≤ place) (below : place ≤ last)
      (breaks : (start.afterCalls place).breaks options = true)
      (follows : Session.Follows
        (Said opened lines (Remark.before options start place ++
          Remark.ofStep options (start.afterCalls place)))
        options (start.afterCalls (place + 1)) left) :
      Pauses opened lines options start first last
        (some (.pausedAtBreakpoint (start.afterCalls place).engine.ip)) left
  | declined {left : Session × Console}
      (follows : Session.Follows (Said opened lines (Remark.before options start (last + 1)))
        options (start.afterCalls (last + 1)) left) :
      Pauses opened lines options start first last
        (some (.pausedForStep (start.afterCalls last).engine.ip)) left

theorem breakpoint_tells {place : Nat} {left : Session × Console}
    (begins : start.Begins (block.instructions 0)) (running : state.1.engine.finished = false)
    (breaks : (start.afterCalls place).breaks options = true)
    (follows : Session.Follows
      (Said opened lines (Remark.before options start place ++
        Remark.ofStep options (start.afterCalls place)))
      options (start.afterCalls (place + 1)) left) :
    let index := (start.afterCalls place).engine.ip
    let paused := closing state (.pausedAtBreakpoint index) left
    ∃ console, question index paused =
        (.ok !isQuit (lines.getD (start.promptsBefore options place) []), paused.1, console) ∧
      Said opened lines (Remark.before options start (place + 1)) console
        (start.afterCalls (place + 1)).streams := by
  intro index paused
  have logged : Said opened lines
      (Remark.before options start place ++ Remark.ofStep options (start.afterCalls place) ++
        [.logged s!"breakpoint hit at instruction {index}"]) paused.2
      (start.afterCalls (place + 1)).streams := by
    change Said _ _ _ (closing state _ left).2 _
    rw [closing, running]
    exact follows.streams.log _
  have engine : paused.1.engine = (start.afterCalls place).stepped.engine := follows.engine
  obtain ⟨console, asked, said⟩ := question_tells engine follows.options logged
    (begins.placed_afterCalls (place + 1)) index
  rw [prompts_append, prompts_append, prompts_before, prompts_ofStep breaks] at asked
  refine ⟨console, asked, ?_⟩
  rw [before_succ, Remark.ofMachine, breaks, if_pos rfl]
  simpa [Remark.ofBreakpoint] using said

section stopping

variable {first last distance : Nat} (begins : start.Begins (block.instructions 0))
  (stops : StopsAt options start lines last)
include begins stops

/-- An instruction on the way pauses the session, or leads it on. -/
theorem advance_pauses (within : first ≤ last)
    (follows : Session.Follows (Said opened lines (Remark.before options start first)) options
      (start.afterCalls first) state) :
    Yields (Session.advance listeners true) state fun status after =>
      (status.isPause = true ∧ Pauses opened lines options start first last (some status) after) ∨
        (first < last ∧ status.isPause = false ∧
          Session.Follows (Said opened lines (Remark.before options start (first + 1))) options
            (start.afterCalls (first + 1)) after) := by
  have placed := begins.placed_afterCalls first
  refine (advance_tells follows placed (stops.executes within)).mono fun status after told => ?_
  obtain ⟨rfl, follows'⟩ := told
  rw [prompts_before, Machine.answered]
  cases breaks : (start.afterCalls first).breaks options with
  | true => exact .inl ⟨rfl, .broken (Nat.le_refl first) within breaks follows'⟩
  | false =>
    have unbroken : ¬ false = true := nofun
    rw [if_neg unbroken]
    have follows'' : Session.Follows (Said opened lines (Remark.before options start (first + 1)))
        options (start.afterCalls (first + 1)) after := by
      have said : Remark.ofMachine options (start.afterCalls first) =
          Remark.ofStep options (start.afterCalls first) := by
        rw [Remark.ofMachine, breaks, if_neg unbroken, List.append_nil]
      rw [before_succ, said]
      exact follows'
    rcases Nat.lt_or_eq_of_le within with less | rfl
    · have goesOn : ¬ ((start.afterCalls first).prompts options &&
          isQuit (lines.getD (start.promptsBefore options first) [])) = true := by
        intro declined
        obtain ⟨prompted, quits⟩ := Bool.and_eq_true_iff.mp declined
        rw [stops.agreed less prompted] at quits
        cases quits
      rw [if_neg goesOn]
      exact .inr ⟨less, placed.step.2.placed.not_isPause, follows''⟩
    · rw [if_pos (Bool.and_eq_true_iff.mpr ⟨stops.prompted, stops.quits⟩)]
      exact .inl ⟨rfl, .declined follows''⟩

theorem run_pauses (reaches : first + distance = last)
    (follows : Session.Follows (Said opened lines (Remark.before options start first)) options
      (start.afterCalls first) state) :
    Yields (Session.run listeners (distance + 1)) state
      (Pauses opened lines options start first last) := by
  have within : first ≤ last := by omega
  induction distance generalizing first state with
  | zero =>
    rw [Session.run, Yields, bind_apply, follows.boundary, stops.unfinished within]
    refine (advance_pauses begins stops within follows).bind fun status after told => ?_
    rcases told with ⟨pauses, paused⟩ | ⟨less, -⟩
    · rw [pauses]
      exact .pure paused
    · omega
  | succ distance ih =>
    rw [Session.run, Yields, bind_apply, follows.boundary, stops.unfinished within]
    refine (advance_pauses begins stops within follows).bind fun status after told => ?_
    rcases told with ⟨pauses, paused⟩ | ⟨less, goesOn, follows'⟩
    · rw [pauses]
      exact .pure paused
    · rw [goesOn]
      refine Yields.mono (ih (by omega) follows' less) fun status? left paused => ?_
      cases paused with
      | broken above below breaks follows => exact .broken (by omega) below breaks follows
      | declined follows => exact .declined follows

/-- The command goes on behind each earlier breakpoint, and ends with the instruction behind which
the operator stops it. -/
theorem course_stops (idle : state.1.active = false) (within : first ≤ last)
    (follows : Session.Follows (Said opened lines (Remark.before options start first)) options
      (start.afterCalls first) (enter state)) :
    ∃ final, Course none state 0 final ∧
      final.1.engine = (start.afterCalls (last + 1)).engine ∧
      Said opened lines (Remark.before options start (last + 1)) final.2
        (start.afterCalls (last + 1)).streams := by
  obtain ⟨distance, reaches⟩ := Nat.exists_eq_add_of_le within
  induction distance using Nat.strong_induction_on generalizing first state with
  | _ distance ih =>
    have running : state.1.engine.finished = false := by
      have engine : state.1.engine = (start.afterCalls first).engine := follows.engine
      rw [engine, stops.unfinished within]
    obtain ⟨status?, left, ran, paused⟩ := run_pauses begins stops reaches.symm follows
    cases paused with
    | declined follows' =>
      have ends := (bursts_none_iff idle).mpr ⟨_, left, ran, rfl⟩
      refine ⟨_, .declined ends, follows'.engine, ?_⟩
      rw [closing, running]
      exact follows'.streams
    | @broken place _ above below breaks follows' =>
      have ends := (bursts_none_iff idle).mpr ⟨_, left, ran, rfl⟩
      obtain ⟨console, asked, said⟩ := breakpoint_tells begins running breaks follows'
      rcases Nat.lt_or_eq_of_le below with less | rfl
      · rw [stops.agreed less (Machine.prompts_of_breaks breaks)] at asked
        obtain ⟨fewer, reaches'⟩ := Nat.exists_eq_add_of_le less
        let next : Session × Console :=
          ((closing state (.pausedAtBreakpoint (start.afterCalls place).engine.ip) left).1, console)
        have idle' : next.1.active = false := rfl
        have follows'' : Session.Follows
            (Said opened lines (Remark.before options start (place + 1))) options
            (start.afterCalls (place + 1)) (enter next) :=
          ⟨rfl, follows'.options, follows'.eager, follows'.engine, said⟩
        obtain ⟨final, rest, engine, said'⟩ := ih fewer (by omega) idle' less follows'' reaches'
        exact ⟨final, .resumed ends asked rest, engine, said'⟩
      · rw [stops.quits] at asked
        exact ⟨_, .quit ends asked, follows'.engine, said⟩

end stopping

/-- The command ends with an instruction: nothing is executed behind it. It exits with 0, its output
is what was written up to then, and error output shows the remarks about the instructions, one
prompt more than before the last of them. -/
structure EndsWith (command : Nat → Option Outcome) (options : Session.Options) (start : Machine)
    (state : Session × Console) (last : Nat) : Prop where
  returns : ∃ final, Returns none state 0 final ∧
    final.1.engine = (start.afterCalls (last + 1)).engine
  outcome : ∃ enough, ∀ fuel, enough ≤ fuel → command fuel =
    some ⟨.exit 0, textOfOutput (start.afterCalls (last + 1)).streams.output,
      state.2.errors ++ String.join ((Remark.before options start (last + 1)).map
        (Remark.text state.2.level state.2.clock))⟩
  prompts : prompts (Remark.before options start (last + 1)) =
    start.promptsBefore options last + 1

theorem Launches.endsWith {lookUp : String → Entry} {arguments : List String} {stdin : ByteArray}
    {clock : String} {settings : Settings} {last : Nat}
    (launches : Launches lookUp arguments stdin clock settings state)
    (unlimited : settings.maxSteps = none) (begins : start.Begins (block.instructions 0))
    (idle : state.1.active = false)
    (follows : Session.Follows (Said state.2 lines []) options start (enter state))
    (stops : StopsAt options start lines last) :
    EndsWith (run lookUp arguments stdin clock) options start state last := by
  obtain ⟨final, course, engine, said⟩ := course_stops begins stops idle (Nat.zero_le last) follows
  have returns := returns_iff_course.mpr course
  refine ⟨⟨final, returns, engine⟩, ?_, ?_⟩
  · obtain ⟨enough, driven⟩ := returns
    refine ⟨enough, fun fuel large => ?_⟩
    rw [launches.run_eq, unlimited, driven fuel large, ← said.output, ← said.errors]
    rfl
  · rw [prompts_before, Machine.promptsBefore_succ, if_pos stops.prompted]

section command

variable {file input source text : String} {arguments : List Argument} {stdin contents : ByteArray}
  {lookUp : String → Entry} {program : Program} {reads : List (Option Int)}

theorem Console.Said.fresh {console : Console}
    (typed : Text.Encoding.utf8.decode? stdin = some text) (unread : console.bytes = stdin.toList)
    (untyped : console.typed = none) (silent : console.output = "")
    (fed : console.feed = some { input := reads }) :
    Said console (Console.typedLines text.toList) [] console { input := reads } where
  feed := ⟨_, fed, rfl⟩
  output := silent
  typing := by
    simp only [Console.typing, untyped, unread, Text.Encoding.decodeFront?_toList typed]
    rfl
  errors := String.append_empty.symm
  level := rfl
  clock := rfl

end command

end Command
end Brainfuck
