import Brainfuck.Proofs.Invariant
import Brainfuck.Proofs.Session.Calls

/-! A session that nobody stops follows a machine. Where the machine makes a step, the session
makes it too and shows it; it pauses behind breakpoints, and nowhere else. -/

namespace Brainfuck

namespace Session

variable {World Result Next : Type}

/-- The action returns, and what it returns and leaves is as told. -/
def Yields (action : Action World Result) (before : Session × World)
    (told : Result → Session × World → Prop) : Prop :=
  ∃ result after, action before = (.ok result, after) ∧ told result after

namespace Yields

variable {first : Action World Result} {second : Result → Action World Next}
  {before : Session × World} {told told' : Result → Session × World → Prop}
  {final : Next → Session × World → Prop}

theorem pure {result : Result} (holds : told result before) :
    Yields (Pure.pure result : Action World Result) before told :=
  ⟨result, before, rfl, holds⟩

theorem bind (yields : Yields first before told)
    (yields' : ∀ result after, told result after → Yields (second result) after final) :
    Yields (first >>= second) before final := by
  obtain ⟨result, middle, returned, holds⟩ := yields
  obtain ⟨next, after, returned', holds'⟩ := yields' result middle holds
  refine ⟨next, after, ?_, holds'⟩
  rw [bind_apply, returned]
  exact returned'

theorem current_bind {next : Session → Action World Next}
    (yields : Yields (next before.1) before final) :
    Yields (current >>= next) before final := by
  obtain ⟨result, after, returned, holds⟩ := yields
  refine ⟨result, after, ?_, holds⟩
  rw [bind_apply]
  exact returned

theorem mono (yields : Yields first before told)
    (weaker : ∀ result after, told result after → told' result after) :
    Yields first before told' := by
  obtain ⟨result, after, returned, holds⟩ := yields
  exact ⟨result, after, returned, weaker result after holds⟩

theorem exclusively {status? : Result → Option Status} (idle : before.1.active = false)
    (yields : Yields first (enter before) fun result after =>
      told result (leave after (status? result))) :
    Yields (Session.exclusively status? first) before told := by
  obtain ⟨result, middle, returned, holds⟩ := yields
  refine ⟨result, leave middle (status? result), ?_, holds⟩
  rw [exclusively_of_idle idle, returned]

end Yields
end Session

namespace Machine

variable {code : List Instruction} {block : Block} {machine reached : Machine} {index : Int}
  {instruction : Instruction}

/-- A breakpoint is executed next. -/
def visits (machine : Machine) : Bool :=
  machine.attempts && decide (machine.engine.program.at? machine.engine.ip = some .breakpoint)

theorem visits_iff : machine.visits = true ↔
    machine.engine.finished = false ∧
      machine.engine.program.at? machine.engine.ip = some .breakpoint := by
  simp [visits, attempts]

/-- A breakpoint does nothing but lead to the next instruction. -/
theorem stepped_of_visits (visited : machine.visits = true) :
    machine.stepped =
      { machine with engine := machine.engine.proceed (machine.engine.ip + 1) } := by
  obtain ⟨running, found⟩ := visits_iff.mp visited
  have reaction : machine.engine.react =
      .ok (.silent (machine.engine.proceed (machine.engine.ip + 1))) := by
    simp only [Engine.react, found]
  exact congrArg Prod.snd (step_of_silent _ running reaction)

theorem not_failed_of_visits (visited : machine.visits = true) (underflow : Underflow) :
    machine.stepped.engine.status ≠ .failed underflow := by
  obtain ⟨running, -⟩ := visits_iff.mp visited
  rw [stepped_of_visits visited]
  intro failed
  change (if _ then Status.halted else machine.engine.status) = _ at failed
  split at failed
  · cases failed
  · rw [Engine.finished, failed] at running
    cases running

/-- The status of a session behind the next instruction, if nobody stops it. -/
def outcome (breakpoints : Bool) (machine : Machine) : Status :=
  if breakpoints && machine.visits then .pausedAtBreakpoint machine.engine.ip
  else machine.stepped.engine.status

theorem outcome_of_failed {underflow : Underflow} (breakpoints : Bool)
    (failed : machine.stepped.engine.status = .failed underflow) :
    machine.outcome breakpoints = .failed underflow := by
  have unvisited : ¬ machine.visits = true :=
    fun visited => not_failed_of_visits visited underflow failed
  rw [outcome, if_neg (by simp [unvisited]), failed]

theorem Turn.program_eq (turn : Turn code machine reached) :
    reached.engine.program = machine.engine.program := by
  cases turn <;> rfl

theorem Turn.outcome_eq (turn : Turn code machine machine.stepped)
    (running : machine.engine.finished = false) (breakpoints : Bool) :
    machine.outcome breakpoints =
      if breakpoints = true ∧
          machine.stepped.engine.program.at? machine.engine.ip = some .breakpoint then
        .pausedAtBreakpoint machine.engine.ip
      else machine.stepped.engine.status := by
  rw [outcome, turn.program_eq]
  simp only [Bool.and_eq_true, visits_iff, running, true_and]

namespace Placed

theorem code_eq (placed : machine.Placed code) :
    machine.engine.program.instructions.toList = code := by
  cases placed with
  | stands stands => exact stands.code_eq
  | failed stood _ => exact stood.code_eq

theorem exists_description (placed : machine.Placed (block.instructions 0))
    (found : machine.engine.program.at? index = some instruction) :
    ∃ text, instruction.description = .ok text := by
  obtain ⟨place, -, found⟩ := Option.bind_eq_some_iff.mp found
  rw [← Array.getElem?_toList, placed.code_eq] at found
  obtain ⟨inside, -⟩ := List.getElem?_eq_some_iff.mp found
  obtain ⟨valid, found', fits⟩ := block.fits_instructions.valid (Nat.zero_le place)
    (by simpa using inside)
  cases found.symm.trans found'
  cases instruction with
  | foreign text => exact fits.elim
  | _ => exact ⟨_, rfl⟩

theorem exists_lastInstruction (placed : machine.Placed (block.instructions 0))
    (running : machine.engine.finished = false) :
    ∃ instruction, machine.stepped.engine.lastInstruction? = some instruction := by
  have turn := placed.step.2
  have attempted : machine.attempts = true := by simp [attempts, running]
  obtain ⟨above, below⟩ := turn.ip_inside attempted
  obtain ⟨ip, same⟩ := Int.eq_ofNat_of_zero_le above
  rw [Engine.lastInstruction?, turn.lastIndex_eq, if_pos attempted, Option.bind_some, same]
  rw [same] at below
  have size : machine.stepped.engine.program.size = (block.instructions 0).length := by
    rw [← turn.placed.code_eq, Array.length_toList]
    rfl
  have inside : ip < machine.stepped.engine.program.size := by omega
  exact ⟨machine.stepped.engine.program.instructions[ip], by
    rw [Program.at?, place?_natCast, if_pos inside, Option.bind_some]
    exact Array.getElem?_eq_getElem inside⟩

end Placed
end Machine

namespace Observation

/-- The instruction that was executed can be described. -/
def Legible (observation : Observation) : Prop :=
  ∃ description, observation.instruction.description = .ok description

theorem Legible.exists_text {observation : Observation} (legible : observation.Legible) :
    ∃ text, observation.text = .ok text := by
  obtain ⟨description, described⟩ := legible
  rw [text, described]
  exact ⟨_, rfl⟩

end Observation

namespace Session

variable {session : Session} {observation : Observation}

theorem instruction_of_observe (observed : session.observe = some observation) :
    session.engine.lastInstruction? = some observation.instruction := by
  obtain ⟨index, last, observed⟩ := Option.bind_eq_some_iff.mp observed
  obtain ⟨instruction, found, observed⟩ := Option.bind_eq_some_iff.mp observed
  cases observed
  rw [Engine.lastInstruction?, last]
  exact found

theorem observe_ne_none {instruction : Instruction}
    (last : session.engine.lastInstruction? = some instruction) : session.observe ≠ none := by
  obtain ⟨index, last, found⟩ := Option.bind_eq_some_iff.mp last
  simp [observe, last, found]

theorem legible_of_observe {block : Block} {machine : Machine}
    (placed : machine.Placed (block.instructions 0)) (same : session.engine = machine.engine)
    (observed : session.observe = some observation) : observation.Legible := by
  have last := instruction_of_observe observed
  rw [same] at last
  obtain ⟨index, -, found⟩ := Option.bind_eq_some_iff.mp last
  exact placed.exists_description found

/-- A session stands behind the instruction that its engine has executed. -/
theorem behind_of_stepped {block : Block} {machine : Machine}
    (placed : machine.Placed (block.instructions 0)) (running : machine.engine.finished = false)
    (same : session.engine = machine.stepped.engine) : session.Behind machine.engine.ip := by
  have attempted : machine.attempts = true := by simp [Machine.attempts, running]
  have last : session.engine.lastIndex = some machine.engine.ip := by
    rw [same, placed.step.2.lastIndex_eq, if_pos attempted]
  obtain ⟨instruction, found⟩ := placed.exists_lastInstruction running
  rw [← same, Engine.lastInstruction?, last] at found
  exact ⟨last, instruction, found⟩

variable {World : Type}

/-- The action leaves the session as it is, and the world holds the streams then. -/
def Leaves {Result : Type} (holds : World → Streams → Prop) (state : Session × World)
    (streams : Streams) (expected : Result → Prop) (action : Action World Result) : Prop :=
  Yields action state fun result after =>
    expected result ∧ after.1 = state.1 ∧ holds after.2 streams

/-- The callbacks neither raise nor change the session. The program writes to and reads from the
streams that the world holds, and whoever is asked in step mode agrees. -/
structure Listeners.Obliging (listeners : Listeners World) (mode : DebugMode)
    (holds : World → Streams → Prop) : Prop where
  output : ∀ value state streams, state.1.active = true → holds state.2 streams →
    Leaves holds state (streams.write value) (fun _ => True) (listeners.output value)
  input : ∀ state streams, state.1.active = true → holds state.2 streams →
    Leaves holds state streams.read.2 (· = streams.read.1) listeners.input
  observer : ∀ observer ∈ listeners.observer, ∀ observation : Observation, observation.Legible →
    ∀ state streams, state.1.active = true → holds state.2 streams →
      Leaves holds state streams (fun _ => True) (observer observation)
  acknowledge : mode = .step → ∃ acknowledge, listeners.acknowledge = some acknowledge ∧
    ∀ observation : Observation, observation.Legible →
      ∀ state streams, state.1.active = true → holds state.2 streams →
        Leaves holds state streams (· = true) (acknowledge observation)

/-- The program writes to and reads from the streams that the world holds. -/
structure Listeners.Serves (listeners : Listeners World) (holds : World → Streams → Prop) :
    Prop where
  output : ∀ value state streams, state.1.active = true → holds state.2 streams →
    Leaves holds state (streams.write value) (fun _ => True) (listeners.output value)
  input : ∀ state streams, state.1.active = true → holds state.2 streams →
    Leaves holds state streams.read.2 (· = streams.read.1) listeners.input

theorem Listeners.Obliging.serves {listeners : Listeners World} {mode : DebugMode}
    {holds : World → Streams → Prop} (obliging : listeners.Obliging mode holds) :
    listeners.Serves holds :=
  ⟨obliging.output, obliging.input⟩

/-- The session executes instructions and has come as far as the machine, with nobody about to
stop it. -/
structure Follows (holds : World → Streams → Prop) (options : Options) (machine : Machine)
    (state : Session × World) : Prop where
  active : state.1.active = true
  options : state.1.options = options
  eager : state.1.interrupted = false
  engine : state.1.engine = machine.engine
  streams : holds state.2 machine.streams

variable {listeners : Listeners World} {holds : World → Streams → Prop} {options : Options}
  {machine next : Machine} {state : Session × World} {block : Block} {status : Status}
  {index : Int}

namespace Follows

theorem of_leaves {Result : Type} {action : Action World Result} {expected : Result → Prop}
    (follows : Follows holds options machine state)
    (leaves : Leaves holds state machine.streams expected action) :
    Yields action state fun result after =>
      expected result ∧ Follows holds options machine after := by
  refine Yields.mono leaves fun result after told => ?_
  obtain ⟨meets, same, held⟩ := told
  exact ⟨meets, by rw [same]; exact follows.active, by rw [same]; exact follows.options,
    by rw [same]; exact follows.eager, by rw [same]; exact follows.engine, held⟩

theorem step (follows : Follows holds options machine state) (serves : listeners.Serves holds)
    (stepped : machine.step = (.ok status, next)) :
    Yields (state.1.engine.step listeners.output listeners.input) state fun engine after =>
      Follows holds options next (withEngine after engine) := by
  have made : ∃ engine after, machine.engine.step Machine.write Machine.read machine =
      (.ok engine, after) ∧ next = { after with engine } := by
    obtain ⟨_, _, found, stepped⟩ := bind_eq_ok stepped
    cases found
    obtain ⟨engine, after, executed, returned⟩ := bind_eq_ok stepped
    cases returned
    exact ⟨engine, after, executed, rfl⟩
  have replaced {engine : Engine} {after : Session × World} {streams : Streams}
      (same : after.1 = state.1) (held : holds after.2 streams) :
      Follows holds options ⟨engine, streams⟩ (withEngine after engine) :=
    ⟨by rw [withEngine, same]; exact follows.active,
      by rw [withEngine, same]; exact follows.options,
      by rw [withEngine, same]; exact follows.eager, rfl, held⟩
  obtain ⟨engine, after, executed, rfl⟩ := made
  rw [follows.engine]
  cases finished : machine.engine.finished with
  | true =>
    rw [Engine.step_of_finished finished] at executed ⊢
    cases executed
    exact .pure (replaced rfl follows.streams)
  | false =>
    cases reaction : machine.engine.react with
    | error fault =>
      rw [Engine.step_of_error finished reaction] at executed
      cases executed
    | ok reacted =>
      cases reacted with
      | silent reached =>
        rw [Engine.step_of_silent finished reaction] at executed ⊢
        cases executed
        exact .pure (replaced rfl follows.streams)
      | write value reached =>
        rw [Engine.step_of_write finished reaction] at executed ⊢
        cases executed
        have written := serves.output value state machine.streams follows.active follows.streams
        exact Yields.bind written fun _ after told => .pure (replaced told.2.1 told.2.2)
      | read accept =>
        rw [Engine.step_of_read finished reaction] at executed ⊢
        obtain ⟨received, middle, taken, returned⟩ := bind_eq_ok executed
        have reads : Machine.read machine =
          (.ok machine.streams.read.1, { machine with streams := machine.streams.read.2 }) := rfl
        cases reads.symm.trans taken
        have read := serves.input state machine.streams follows.active follows.streams
        refine Yields.bind read fun value after told => ?_
        obtain ⟨rfl, same, held⟩ := told
        cases accepted : accept machine.engine machine.streams.read.1 with
        | error fault =>
          rw [accepted] at returned
          cases returned
        | ok reached =>
          rw [accepted] at returned
          cases returned
          exact .pure (replaced same held)

theorem still (follows : Follows holds options machine state) (serves : listeners.Serves holds) :
    listeners.Still state where
  output _ called := by
    obtain ⟨_, _, called', -, same, -⟩ :=
      serves.output _ state machine.streams follows.active follows.streams
    cases called.symm.trans called'
    rw [same]
  input _ called := by
    obtain ⟨_, _, called', -, same, -⟩ :=
      serves.input state machine.streams follows.active follows.streams
    cases called.symm.trans called'
    rw [same]

theorem execute (follows : Follows holds options machine state) (serves : listeners.Serves holds)
    (stepped : machine.step = (.ok status, next)) :
    Yields (Session.execute listeners) state fun left after =>
      left = next.engine.status ∧ Follows holds options next after := by
  obtain ⟨engine, middle, executed, follows'⟩ := follows.step serves stepped
  exact ⟨_, _, (follows.still serves).executed executed, congrArg Engine.status follows'.engine,
    follows'⟩

/-- Whatever shows the state does not change how far the session has come. -/
theorem report (follows : Follows holds options machine state)
    (obliging : listeners.Obliging options.mode holds)
    (placed : machine.Placed (block.instructions 0)) (behind : state.1.Behind index)
    (mode : DebugMode) :
    Yields (Session.report listeners mode) state fun seen after =>
      (∀ observation ∈ seen, observation.Legible) ∧ Follows holds options machine after := by
  rcases heard_or_unheard listeners mode with unheard | ⟨shows, observer, heard⟩
  · rw [report_of_unheard unheard]
    exact .pure ⟨nofun, follows⟩
  · obtain ⟨observation, observed⟩ := behind.exists_observe
    have legible := legible_of_observe placed follows.engine observed
    have left := obliging.observer observer heard observation legible state machine.streams
      follows.active follows.streams
    rw [Yields, report_of_observed shows heard observed]
    refine Yields.bind (follows.of_leaves left) fun _ after told => .pure ⟨?_, told.2⟩
    rintro _ ⟨⟩
    exact legible

theorem consult (follows : Follows holds options machine state)
    (obliging : listeners.Obliging options.mode holds)
    (placed : machine.Placed (block.instructions 0)) (behind : state.1.Behind index)
    (asks : options.mode = .step) (status : Status) {seen : Option Observation}
    (legible : ∀ observation ∈ seen, observation.Legible) :
    Yields (Session.consult listeners true index status seen) state fun answer after =>
      answer = status ∧ Follows holds options machine after := by
  obtain ⟨acknowledge, asked, agrees⟩ := obliging.acknowledge asks
  obtain ⟨observation, found, legible'⟩ : ∃ observation,
      (seen <|> state.1.observe) = some observation ∧ observation.Legible := by
    cases seen with
    | none =>
      obtain ⟨observation, observed⟩ := behind.exists_observe
      exact ⟨observation, observed, legible_of_observe placed follows.engine observed⟩
    | some observation => exact ⟨observation, rfl, legible observation rfl⟩
  have left := agrees observation legible' state machine.streams follows.active follows.streams
  rw [Yields, consult_of_asked asked found]
  refine Yields.bind (follows.of_leaves left) fun agreed after told => ?_
  obtain ⟨rfl, follows'⟩ := told
  exact .pure ⟨rfl, follows'⟩

/-- After an instruction the session goes on, unless it is a breakpoint. -/
theorem settle (follows : Follows holds options machine state)
    (obliging : listeners.Obliging options.mode holds)
    (placed : machine.Placed (block.instructions 0)) (behind : state.1.Behind index)
    (status : Status) {seen : Option Observation}
    (legible : ∀ observation ∈ seen, observation.Legible) :
    Yields (Session.settle listeners true index status options.mode seen) state
      fun answer after =>
        answer = (if options.breakpoints ∧
            machine.engine.program.at? index = some .breakpoint then
          .pausedAtBreakpoint index else status) ∧
        Follows holds options machine after := by
  rw [Yields, behind.settle_eq, follows.options, follows.engine]
  split
  · exact Yields.pure ⟨rfl, follows⟩
  · split
    · next halted => exact Yields.pure ⟨halted.symm, follows⟩
    · split
      · next asks => exact follows.consult obliging placed behind asks status legible
      · exact Yields.pure ⟨rfl, follows⟩

/-- One instruction of the session is a step of the machine. -/
theorem advance (follows : Follows holds options machine state)
    (obliging : listeners.Obliging options.mode holds)
    (placed : machine.Placed (block.instructions 0)) (running : machine.engine.finished = false) :
    Yields (Session.advance listeners true) state fun status after =>
      status = machine.outcome options.breakpoints ∧
        Follows holds options machine.stepped after := by
  have unfinished : state.1.engine.finished = false := by rw [follows.engine, running]
  obtain ⟨stepped, turn⟩ := placed.step
  obtain ⟨_, middle, executed, rfl, follows'⟩ := follows.execute obliging.serves stepped
  rw [Yields, advance_of_executed unfinished executed, follows.engine]
  rcases failed_or_unfailed machine.stepped.engine.status with ⟨underflow, failed⟩ | unfailed
  · rw [Machine.outcome_of_failed options.breakpoints failed, failed, attend_of_failed]
    exact Yields.pure ⟨rfl, follows'⟩
  · rw [turn.outcome_eq running, attend_of_unfailed unfailed, follows'.options]
    have behind := behind_of_stepped placed running follows'.engine
    refine (follows'.report obliging turn.placed behind _).bind fun seen after told => ?_
    exact told.2.settle obliging turn.placed
      (behind_of_stepped placed running told.2.engine) _ told.1

theorem boundary (follows : Follows holds options machine state) :
    Session.boundary state =
      (.ok (if machine.engine.finished then some machine.engine.status else none), state) := by
  rw [boundary_apply, follows.engine, follows.eager]
  split <;> rfl

end Follows
end Session
end Brainfuck
