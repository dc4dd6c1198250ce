import Brainfuck.Proofs.Session.Observations
import Brainfuck.Proofs.Session.Requests
import Brainfuck.Proofs.Session.Truth

/-! Consultation. In step mode a run asks behind each instruction whether it may go on, and about
what was shown of that instruction. It does not ask behind an instruction that fails, that ends the
program or that is a breakpoint it pauses at. A refusal is the end of the run. -/

namespace Brainfuck

theorem Status.ne_pausedForStep {status : Status} (goesOn : status.isPause = false) (index : Int) :
    status ≠ .pausedForStep index := by
  intro same
  rw [same] at goesOn
  cases goesOn

/-- The next instruction is executed, does not end the program and is no breakpoint that a session
pauses at. -/
def Machine.consults (breakpoints : Bool) (machine : Machine) : Bool :=
  machine.executes && decide (machine.stepped.engine.status ≠ .halted) &&
    !(breakpoints && machine.visits)

namespace Event

/-- Somebody was asked, and the last answer was a refusal to go on behind what was observed. -/
def Refuses (events : List Event) (observation : Observation) : Prop :=
  (answers events).getLast? = some (observation, false)

variable {first second : List Event} {observation : Observation}

theorem not_refuses_of_unasked (unasked : answers first = []) : ¬ Refuses first observation := by
  simp [Refuses, unasked]

/-- Behind agreement only what is asked later can be refused. -/
theorem refuses_append_iff (agreed : ∀ observation, ¬ Refuses first observation) :
    Refuses (first ++ second) observation ↔ Refuses second observation := by
  rw [Refuses, answers_append, List.getLast?_append, Option.or_eq_some_iff]
  constructor
  · rintro (refused | ⟨-, refused⟩)
    · exact refused
    · exact absurd refused (agreed observation)
  · exact .inl

end Event

namespace Session

open Event

/-- What happens when a machine executes its next instruction in a session. Besides what it writes
and reads the instruction is shown, if somebody watches, and then somebody is asked about the same
observation, if the session asks. -/
inductive Heard (options : Options) (watched asks : Bool) (machine : Machine) : List Event → Prop
  where
  | failed {traffic : List Event} (quiet : Traffic traffic) (attempted : machine.attempts = true)
      (unexecuted : machine.executes = false) : Heard options watched asks machine traffic
  | unasked {traffic : List Event} {observation : Observation} (quiet : Traffic traffic)
      (describes : observation.Describes options.window machine)
      (passed : (asks && machine.consults options.breakpoints) = false) :
      Heard options watched asks machine
        (traffic ++ if watched then [.showed observation] else [])
  | asked {traffic : List Event} {observation : Observation} {agreed : Bool}
      (quiet : Traffic traffic) (describes : observation.Describes options.window machine)
      (consulted : (asks && machine.consults options.breakpoints) = true) :
      Heard options watched asks machine
        (traffic ++ (if watched then [.showed observation] else []) ++ [.asked observation agreed])

variable {World : Type} {listeners : Listeners World} {log : World → List Event}
  {blocking watched asks : Bool} {index : Int} {options : Options}
  {start : List (Option Int) → Machine} {count first : Nat} {machine : Machine} {block : Block}
  {engine : Engine} {status : Status} {before middle after : Session × World}
  {observation : Observation} {events : List Event}

theorem answers_of_shown (watched : Bool) (observation : Observation) :
    answers (if watched then [.showed observation] else []) = [] := by
  cases watched <;> rfl

theorem Heard.answers_eq (heard : Heard options watched false machine events) :
    answers events = [] := by
  cases heard with
  | failed quiet => exact quiet.unasked
  | unasked quiet => rw [answers_append, quiet.unasked, answers_of_shown, List.append_nil]
  | asked quiet describes consulted => cases consulted

theorem consults_iff (placed : machine.Placed (block.instructions 0))
    (executes : machine.executes = true) (breakpoints : Bool) :
    machine.consults breakpoints = true ↔
      ¬ (breakpoints = true ∧
        machine.stepped.engine.program.at? machine.engine.ip = some .breakpoint) ∧
      machine.stepped.engine.status ≠ .halted := by
  have running : machine.engine.finished = false := by
    simpa [Machine.attempts] using (Bool.and_eq_true_iff.mp executes).1
  rw [placed.step.2.program_eq, Machine.consults, executes]
  cases breakpoints <;> simp [Machine.visits, Machine.attempts, running, and_comm]

/-- What is shown and asked behind an instruction in step mode is what the machine says. -/
theorem Answered.heard {traffic : List Event}
    (answered : Answered options asks machine.engine.ip machine.stepped.engine observation status
      events) (mode : options.mode = .step) (placed : machine.Placed (block.instructions 0))
    (quiet : Traffic traffic) (describes : observation.Describes options.window machine) :
    Heard options watched asks machine
      (traffic ++ (if watched then [.showed observation] else []) ++ events) := by
  have consults := consults_iff placed describes.executes options.breakpoints
  have passed (unasked : machine.consults options.breakpoints ≠ true) :
      Heard options watched asks machine
        (traffic ++ (if watched then [.showed observation] else []) ++ []) := by
    rw [List.append_nil]
    exact .unasked quiet describes (by simp [unasked])
  cases answered with
  | broken enabled found => exact passed fun asked => (consults.mp asked).1 ⟨enabled, found⟩
  | halted _ halted => exact passed fun asked => (consults.mp asked).2 halted
  | unpaused other => exact absurd mode other
  | unasked silent =>
    rw [List.append_nil]
    exact .unasked quiet describes (by simp [silent])
  | asked unbroken unhalted asks agreed =>
    exact .asked quiet describes (by simp [asks, consults.mpr ⟨unbroken, unhalted⟩])

/-- A pause for a step comes of a refusal, and of nothing else. -/
def PausesOnRefusal (status? : Option Status) (events : List Event) : Prop :=
  ∀ index, status? = some (.pausedForStep index) ↔
    ∃ observation, Refuses events observation ∧ observation.index = index

theorem Answered.pauses (answered : Answered options true index engine observation status events)
    (goesOn : engine.status.isPause = false) (behind : observation.index = index) :
    PausesOnRefusal (some status) events := by
  intro place
  rw [Option.some.injEq]
  have unpaused := Status.ne_pausedForStep goesOn place
  cases answered with
  | broken | halted | unpaused => simp [Refuses, answers, unpaused]
  | unasked silent => cases silent
  | asked _ _ _ agreed =>
    cases agreed with
    | true => simp [Refuses, answers, asked?, unpaused]
    | false => simp [Refuses, answers, asked?, ← behind]

/-- One instruction of a session. Its events are added to the log, and the record is complete. -/
structure Told (listeners : Listeners World) (log : World → List Event)
    (start : List (Option Int) → Machine) (options : Options) (blocking : Bool) (count : Nat)
    (before : Session × World) (status : Status) (after : Session × World) (events : List Event) :
    Prop where
  active : after.1.active = true
  recorded : Recorded listeners log start options (count + 1) after
  added : log after.2 = log before.2 ++ events
  heard : ∀ more, Heard options (listeners.watches options) (listeners.asks blocking)
    ((start (reads (log after.2) ++ more)).afterCalls count) events
  pauses : listeners.asks blocking = true → PausesOnRefusal (some status) events

theorem Recorded.told (recorded : Recorded listeners log start options count before)
    (logs : listeners.Logs log) (begins : ∀ input, (start input).Begins (block.instructions 0))
    (mode : options.mode = .step) (active : before.1.active = true)
    (running : before.1.engine.finished = false)
    (advances : Session.advance listeners blocking before = (.ok status, after)) :
    ∃ events, Told listeners log start options blocking count before status after events := by
  obtain ⟨active', recorded'⟩ := recorded.advance_running logs begins active running advances
  obtain ⟨engine, middle, stepped, attended⟩ :=
    (logs.still active).stepped_of_advance running advances
  have executed := recorded.execute logs active stepped
  obtain ⟨traffic, added, quiet⟩ := executed.added
  rcases failed_or_unfailed engine.status with ⟨underflow, failed⟩ | unfailed
  · rw [failed, attend_of_failed] at attended
    cases attended
    have unexecuted (more : List (Option Int)) :
        ((start (reads (log middle.2) ++ more)).afterCalls count).executes = false := by
      rw [executed.executes_eq running, failed]
      rfl
    exact ⟨traffic, active', recorded', added,
      fun more => .failed quiet (executed.attempts_eq running more) (unexecuted more),
      fun _ place => by simp [Refuses, quiet.unasked]⟩
  · obtain ⟨observation, events, describes, ⟨-, added'⟩, reading, answered⟩ :=
      executed.attended running recorded.unchanged logs begins active unfailed attended
    have placed (more : List (Option Int)) :=
      (begins (reads (log middle.2) ++ more)).placed_afterCalls count
    refine ⟨traffic ++ (if listeners.watches options then [.showed observation] else []) ++ events,
      active', recorded', ?_, fun more => ?_, fun asks place => ?_⟩
    · rw [added', withEngine, added, List.append_assoc, List.append_assoc]
    · rw [← executed.stood more, ← executed.stepped_eq more] at answered
      rw [reading]
      exact answered.heard mode (placed more) quiet (describes more)
    · have unasked : answers (traffic ++
          if listeners.watches options then [.showed observation] else []) = [] := by
        rw [answers_append, quiet.unasked, answers_of_shown, List.append_nil]
      have goesOn := (placed []).step.2.placed.not_isPause
      rw [executed.stepped_eq] at goesOn
      have behind := (describes []).index
      rw [executed.stood] at behind
      simp only [refuses_append_iff fun _ => not_refuses_of_unasked unasked]
      rw [asks] at answered
      exact answered.pauses goesOn behind place

/-- Instructions that a session executes one after another, the first behind a number of calls of
`step`, with the events of each. Only the last may be refused. -/
structure Transcript (listeners : Listeners World) (log : World → List Event)
    (start : List (Option Int) → Machine) (options : Options) (blocking : Bool) (first : Nat)
    (before after : Session × World) (heard : List (List Event)) : Prop where
  recorded : Recorded listeners log start options (first + heard.length) after
  added : log after.2 = log before.2 ++ heard.flatten
  each : ∀ more place events, heard[place]? = some events →
    Heard options (listeners.watches options) (listeners.asks blocking)
      ((start (reads (log after.2) ++ more)).afterCalls (first + place)) events
  last : ∀ place events observation, heard[place]? = some events → Refuses events observation →
    place + 1 = heard.length

namespace Transcript

variable {heard : List (List Event)}

theorem nil (recorded : Recorded listeners log start options first after)
    (same : log after.2 = log before.2) :
    Transcript listeners log start options blocking first before after [] :=
  ⟨recorded, by simp [same], by simp, by simp⟩

theorem cons (told : Told listeners log start options blocking first before status middle events)
    (rest : Transcript listeners log start options blocking (first + 1) middle after heard)
    (only : ∀ observation, Refuses events observation → heard = []) :
    Transcript listeners log start options blocking first before after (events :: heard) where
  recorded := by
    have recorded := rest.recorded
    rwa [Nat.add_right_comm] at recorded
  added := by rw [rest.added, told.added, List.flatten_cons, List.append_assoc]
  each more place events' found := by
    cases place with
    | zero =>
      cases found
      rw [rest.added, reads_append, List.append_assoc]
      exact told.heard _
    | succ place =>
      have heard := rest.each more place events' found
      rwa [Nat.add_right_comm] at heard
  last place events' observation found refused := by
    cases place with
    | zero =>
      cases found
      rw [only observation refused]
      rfl
    | succ place => exact congrArg (· + 1) (rest.last place events' observation found refused)

end Transcript

variable {status? : Option Status} {allowance : Nat} {entry : Entry}

theorem Recorded.of_same (recorded : Recorded listeners log start options count before)
    (unchanged : after.1.options = before.1.options) (engine : after.1.engine = before.1.engine)
    (world : after.2 = before.2) : Recorded listeners log start options count after := by
  constructor
  · rw [unchanged]
    exact recorded.unchanged
  · rw [engine, world]
    exact recorded.place
  · rw [engine]
    exact recorded.steps
  · rw [engine, world]
    exact recorded.length
  · rw [world]
    exact recorded.chronicle

theorem Recorded.goesOn (recorded : Recorded listeners log start options count before)
    (begins : ∀ input, (start input).Begins (block.instructions 0)) :
    before.1.engine.status.isPause = false := by
  have goesOn := ((begins (reads (log before.2) ++ [])).placed_afterCalls count).not_isPause
  obtain ⟨output, place⟩ := recorded.place []
  rwa [place] at goesOn

/-- No instruction is executed and nobody is asked where a run ends before an instruction. -/
theorem Recorded.boundary (recorded : Recorded listeners log start options first before)
    (begins : ∀ input, (start input).Begins (block.instructions 0))
    (ended : Session.boundary before = (.ok status?, after)) :
    Transcript listeners log start options blocking first before after [] ∧
      PausesOnRefusal status? [] := by
  have goesOn := recorded.goesOn begins
  rw [boundary_apply] at ended
  split at ended
  · cases ended
    refine ⟨.nil recorded rfl, fun index => ?_⟩
    simp [Refuses, answers, Status.ne_pausedForStep goesOn index]
  · split at ended
    · cases ended
      exact ⟨.nil (recorded.of_same rfl rfl rfl) rfl, fun index => by simp [Refuses, answers]⟩
    · cases ended
      exact ⟨.nil recorded rfl, fun index => by simp [Refuses, answers]⟩

theorem Recorded.run (recorded : Recorded listeners log start options first before)
    (logs : listeners.Logs log) (begins : ∀ input, (start input).Begins (block.instructions 0))
    (mode : options.mode = .step) (heard : listeners.acknowledge.isSome = true)
    (active : before.1.active = true)
    (ended : Session.run listeners allowance before = (.ok status?, after)) :
    ∃ heard, Transcript listeners log start options true first before after heard ∧
      PausesOnRefusal status? heard.flatten := by
  induction allowance generalizing before first with
  | zero => exact ⟨[], recorded.boundary begins ended⟩
  | succ allowance ih =>
    by_cases ready : before.1.Ready
    · rw [run_succ_of_ready ready] at ended
      obtain ⟨status, middle, advances, later⟩ := bind_eq_ok ended
      obtain ⟨events, told⟩ := recorded.told logs begins mode active ready.running advances
      have pauses := told.pauses heard
      split at later
      · next paused =>
        cases later
        refine ⟨[events], .cons told (.nil told.recorded rfl) fun _ _ => rfl, ?_⟩
        rw [List.flatten_singleton]
        exact pauses
      · next goesOn =>
        have agreed (observation : Observation) : ¬ Refuses events observation := by
          intro refused
          have paused := (pauses observation.index).mpr ⟨observation, refused, rfl⟩
          cases paused
          exact goesOn rfl
        obtain ⟨rest, transcript, pauses'⟩ := ih told.recorded told.active later
        refine ⟨events :: rest, .cons told transcript fun observation refused =>
          absurd refused (agreed observation), fun index => ?_⟩
        simp only [List.flatten_cons, refuses_append_iff agreed]
        exact pauses' index
    · rw [run_of_not_ready ready] at ended
      exact ⟨[], recorded.boundary begins ended⟩

theorem Recorded.body (recorded : Recorded listeners log start options first before)
    (logs : listeners.Logs log) (begins : ∀ input, (start input).Begins (block.instructions 0))
    (mode : options.mode = .step) (heard : listeners.acknowledge.isSome = true)
    (active : before.1.active = true)
    (ended : entry.body listeners before = (.ok status?, after)) :
    ∃ heard, Transcript listeners log start options entry.waits first before after heard ∧
      (entry.waits = true → PausesOnRefusal status? heard.flatten) := by
  cases entry with
  | resume fuel =>
    obtain ⟨heard, transcript, pauses⟩ := recorded.run logs begins mode heard active ended
    exact ⟨heard, transcript, fun _ => pauses⟩
  | resumeFor limit =>
    obtain ⟨outcome, left, ran, returned⟩ := bind_eq_ok ended
    obtain ⟨heard, transcript, pauses⟩ := recorded.run logs begins mode heard active ran
    cases returned
    refine ⟨heard, transcript, fun _ index => ?_⟩
    rw [← pauses index]
    cases outcome <;> simp
  | stepOnce =>
    obtain ⟨status, left, advances, returned⟩ := bind_eq_ok ended
    cases returned
    cases finished : before.1.engine.finished with
    | true =>
      rw [advance_of_finished finished] at advances
      cases advances
      exact ⟨[], .nil recorded rfl, nofun⟩
    | false =>
      obtain ⟨events, told⟩ := recorded.told logs begins mode active finished advances
      exact ⟨[events], .cons told (.nil told.recorded rfl) fun _ _ => rfl, nofun⟩

theorem Transcript.answers_eq {heard : List (List Event)}
    (transcript : Transcript listeners log start options false first before after heard) :
    answers heard.flatten = [] := by
  have each : ∀ events ∈ heard, answers events = [] := by
    intro events member
    obtain ⟨place, found⟩ := List.mem_iff_getElem?.mp member
    exact (transcript.each [] place events found).answers_eq
  rw [answers, List.filterMap_flatten, List.flatten_eq_nil_iff]
  intro answered member
  obtain ⟨events, listed, rfl⟩ := List.mem_map.mp member
  exact each events listed

theorem Listeners.Logs.discreet (logs : listeners.Logs log)
    (returning : listeners.All fun _ => Returning) : listeners.Discreet := by
  have each {Result : Type} {event : Result → Event} {action : Action World Result}
      (adds : Adds log event action) (returns : Returning action) : Session.Discreet action := by
    intro state active
    obtain ⟨result, after, returned⟩ := returns state active
    rw [returned]
    exact (adds state result after active returned).1
  constructor
  · intro value
    exact each (logs.output value) (returning.output value)
  · exact each logs.input returning.input
  · intro observer heard observation
    exact each (logs.observer observer heard observation)
      (returning.observer observer heard observation)
  · intro acknowledge heard observation
    exact each (logs.acknowledge acknowledge heard observation)
      (returning.acknowledge acknowledge heard observation)

theorem Entry.exists_performed (discreet : listeners.Discreet)
    (returning : listeners.All fun _ => Returning) (idle : before.1.active = false)
    (placed : before.1.engine.Placed block) :
    ∃ status? after, entry.perform listeners before = (.ok status?, after) := by
  rcases performed : entry.perform listeners before with ⟨fault | status?, after⟩
  · obtain ⟨count, point, left, stands, raised, -⟩ :=
      (entry.perform_eq_error_iff idle).mp performed
    have further := stands.further discreet placed
    have active : point.1.active = true := further.active_eq
    obtain ⟨status, middle, advances⟩ :=
      exists_returned discreet returning active further.placed stands.running
    cases raised.symm.trans advances
  · exact ⟨status?, after, rfl⟩

/-- After any calls the session stands where a machine stands that reads what it has read. -/
theorem Call.AllReturn.exists_recorded {tokens : List Token} {source : String} {size : Int}
    {world : World} {calls : List Call}
    (returned : AllReturn listeners calls
      (Session.start (Program.ofBlock block tokens source) options (Tape.blank size), world) after)
    (logs : listeners.Logs log) (fresh : log world = []) :
    ∃ count, Recorded listeners log
      (fun input => Machine.load (Program.ofBlock block tokens source) input (Tape.blank size))
      options count after := by
  have begins (input : List (Option Int)) :=
    Machine.Begins.load (Program.ofBlock block tokens source) input size
  refine returned.keeps recorded_spans (fun blocking => ?_) ⟨0, rfl, fun more => ⟨#[], ?_⟩,
    fun _ => rfl, ?_, fun more => ?_⟩
  · rintro before status after ⟨active, count, recorded⟩ advances
    exact recorded.advance logs begins active advances
  · rw [fresh]
    rfl
  · rw [fresh]
    split <;> rfl
  · rw [fresh]
    exact nofun

/-- What a call has done on a session in step mode, told by a machine that reads the same: which
instructions were executed, the first behind a number of calls of `step`, and what happened with
each. -/
structure Consulted (listeners : Listeners World) (log : World → List Event) (options : Options)
    (entry : Entry) (machine : Machine) (before : Session × World) (status? : Option Status)
    (after : Session × World) (first : Nat) (heard : List (List Event)) : Prop where
  begins : before.1.engine = (machine.afterCalls first).engine
  ends : after.1.engine = (machine.afterCalls (first + heard.length)).engine
  added : log after.2 = log before.2 ++ heard.flatten
  each : ∀ place events, heard[place]? = some events →
    Heard options listeners.observer.isSome entry.waits (machine.afterCalls (first + place)) events
  /-- Nothing is executed behind an instruction that was refused. -/
  last : ∀ place events observation, heard[place]? = some events → Refuses events observation →
    place + 1 = heard.length
  pauses : entry.waits = true → PausesOnRefusal status? heard.flatten
  unasked : entry.waits = false → answers heard.flatten = []

/-- A session in step mode whose callbacks return asks behind each instruction that a run executes,
once and about what was shown of it, unless the instruction fails, ends the program or is a
breakpoint that it pauses at. It pauses for a step exactly where that is refused. A call of
`stepOnce` asks nobody. A run without a status is one that has not come to its end yet. -/
theorem consultation_exact {listeners : Listeners World} {log : World → List Event}
    (logs : listeners.Logs log) (returning : listeners.All fun _ => Returning)
    (heard : listeners.acknowledge.isSome = true) {tokens : List Token} {source : String}
    {program : Program} (built : Program.ofTokens tokens source = .ok program) (options : Options)
    (mode : options.mode = .step) (size : Int) {world : World} (fresh : log world = [])
    {calls : List Call} {before : Session × World}
    (returned : Call.AllReturn listeners calls
      (Session.start program options (Tape.blank size), world) before) (entry : Entry) :
    ∃ status? after, entry.perform listeners before = (.ok status?, after) ∧
      ∃ first events, Consulted listeners log options entry
        (Machine.load program (reads (log after.2)) (Tape.blank size)) before status? after first
        events := by
  obtain ⟨block, -, rfl⟩ := Program.ofTokens_eq_ok_iff.mp built
  have begins (input : List (Option Int)) :=
    Machine.Begins.load (Program.ofBlock block tokens source) input size
  have discreet := logs.discreet returning
  have placed : (Session.start (Program.ofBlock block tokens source) options
      (Tape.blank size)).engine.Placed block := .of_machine (begins []).placed
  have consistent := returned.consistent discreet ⟨rfl, rfl, rfl, placed, placed.trueOf options⟩
  obtain ⟨first, recorded⟩ := returned.exists_recorded logs fresh
  have entered : Recorded listeners log _ options first (enter before) :=
    recorded.of_same rfl rfl rfl
  obtain ⟨status?, after, performed⟩ :=
    entry.exists_performed discreet returning consistent.idle consistent.placed
  refine ⟨status?, after, performed, first, ?_⟩
  rw [entry.perform_of_idle consistent.idle] at performed
  obtain ⟨left, ended, rfl⟩ := closed_eq_ok_iff.mp performed
  obtain ⟨events, transcript, pauses⟩ := entered.body logs begins mode heard rfl ended
  have watched : listeners.watches options = listeners.observer.isSome := by
    simp [Listeners.watches, mode]
  have asks : listeners.asks entry.waits = entry.waits := by simp [Listeners.asks, heard]
  have each := transcript.each []
  obtain ⟨_, stood⟩ := entered.place (reads events.flatten)
  obtain ⟨_, stands⟩ := transcript.recorded.place []
  rw [← reads_append, ← transcript.added] at stood
  rw [List.append_nil] at stands
  rw [List.append_nil, watched, asks] at each
  refine ⟨events, (congrArg Machine.engine stood).symm, (congrArg Machine.engine stands).symm,
    transcript.added, each, transcript.last, pauses, fun unheard => ?_⟩
  rw [unheard] at transcript
  exact transcript.answers_eq

/-- Listeners that note all events. Whoever is asked agrees as long as something is left to be
read. -/
def Listeners.hesitant : Listeners (List Event × List (Option Int)) :=
  { Listeners.logging with
    acknowledge := some fun observation (session, events, input) =>
      (.ok !input.isEmpty, session, events ++ [.asked observation !input.isEmpty], input) }

theorem Listeners.hesitant_logs : hesitant.Logs Prod.fst where
  output := logging_logs.output
  input := logging_logs.input
  observer := logging_logs.observer
  acknowledge := by
    intro acknowledge heard observation state result after _ returned
    cases heard
    cases returned
    exact ⟨⟨_, rfl⟩, rfl⟩

theorem Listeners.hesitant_returning : hesitant.All fun _ => Returning where
  output _ _ _ := ⟨_, _, rfl⟩
  input _ _ := ⟨_, _, rfl⟩
  observer := by
    intro observer heard observation state _
    cases heard
    exact ⟨_, _, rfl⟩
  acknowledge := by
    intro acknowledge heard observation state _
    cases heard
    exact ⟨_, _, rfl⟩

/-- A session of `++,>` makes a single step. The run that follows is refused behind the third
instruction, which has read all there was. -/
theorem consultation_exact_hesitant :
    let program : Program :=
      ⟨#[.adjust 1, .adjust 1, .input, .move 1], #[0, 1, 2, 3], "++,>"⟩
    ∃ before after, Program.ofTokens [.ofSymbol .increment 0, .ofSymbol .increment 1,
        .ofSymbol .input 2, .ofSymbol .right 3] "++,>" = .ok program ∧
      Call.AllReturn .hesitant [.stepOnce]
        (Session.start program { mode := .step } (Tape.blank 4), [], [some 65]) before ∧
      (Entry.resume 9).perform .hesitant before = (.ok (some (.pausedForStep 2)), after) ∧
      ∃ first events, Consulted .hesitant Prod.fst { mode := .step } (.resume 9)
          (Machine.load program (reads after.2.1) (Tape.blank 4)) before
          (some (.pausedForStep 2)) after first events ∧
        ∃ observation, Refuses events.flatten observation ∧ observation.index = 2 := by
  intro program
  let fresh : Session × List Event × List (Option Int) :=
    (Session.start program { mode := .step } (Tape.blank 4), [], [some 65])
  have built : Program.ofTokens [.ofSymbol .increment 0, .ofSymbol .increment 1,
      .ofSymbol .input 2, .ofSymbol .right 3] "++,>" = .ok program := rfl
  have steps : stepOnce .hesitant fresh = (.ok (.pausedForStep 0), _) :=
    apply_of_result (by decide +kernel)
  have returned : Call.AllReturn .hesitant [.stepOnce] fresh _ := .cons ⟨_, steps⟩ (.nil _)
  obtain ⟨status?, after, performed, first, events, consulted⟩ := consultation_exact
    Listeners.hesitant_logs Listeners.hesitant_returning rfl built { mode := .step } rfl 4 rfl
    returned (.resume 9)
  have pauses : (Entry.resume 9).perform .hesitant (stepOnce .hesitant fresh).2 =
      (.ok (some (.pausedForStep 2)), _) := apply_of_result (by decide +kernel)
  cases performed.symm.trans pauses
  exact ⟨_, _, built, returned, performed, first, events, consulted,
    (consulted.pauses rfl 2).mp rfl⟩

end Session
end Brainfuck
