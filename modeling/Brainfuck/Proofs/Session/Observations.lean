import Brainfuck.Proofs.Session.Events
import Brainfuck.Proofs.Session.Following
import Brainfuck.Proofs.Transparency

namespace Brainfuck

/-- The observation is of the instruction that the machine executes next, behind it. It shows the
cells from the start of the window up to a distance to the right of the pointer. -/
structure Observation.Describes (observation : Observation) (distance : Int) (machine : Machine) :
    Prop where
  executes : machine.executes = true
  index : observation.index = machine.engine.ip
  instruction : machine.engine.program.at? machine.engine.ip = some observation.instruction
  pointer : observation.pointer = machine.stepped.engine.pointer
  windowStart : observation.windowStart = max 0 (observation.pointer - distance)
  window : observation.window =
    (List.range (observation.pointer + distance + 1 - observation.windowStart).toNat).map
      fun offset => ((machine.stepped.engine.tape.read
        (observation.windowStart.toNat + offset)).toNat : Int)
  steps : observation.steps = machine.engine.steps + 1

/-- The observations are of the instructions that a machine executes one after another. -/
def Chronicle (distance : Int) (start : Machine) (observations : List Observation) : Prop :=
  ∀ (place : Nat) (observation : Observation), observations[place]? = some observation →
    observation.steps = place + 1 ∧ observation.Describes distance (start.afterCalls place)

theorem Chronicle.concat {distance : Int} {start : Machine} {observations : List Observation}
    {observation : Observation} (chronicle : Chronicle distance start observations)
    (steps : observation.steps = observations.length + 1)
    (describes : observation.Describes distance (start.afterCalls observations.length)) :
    Chronicle distance start (observations ++ [observation]) := by
  intro place other found
  rcases Nat.lt_trichotomy place observations.length with earlier | rfl | later
  · rw [List.getElem?_append_left earlier] at found
    exact chronicle place other found
  · rw [List.getElem?_concat_length] at found
    cases found
    exact ⟨steps, describes⟩
  · have beyond : (observations ++ [observation]).length ≤ place := by
      rw [List.length_append, List.length_singleton]
      omega
    rw [List.getElem?_eq_none beyond] at found
    cases found

namespace Session

open Event

variable {World : Type} {listeners : Listeners World} {log : World → List Event} {blocking : Bool}
  {index : Int} {options : Options} {start : List (Option Int) → Machine} {count : Nat}
  {machine : Machine} {block : Block} {session : Session} {engine : Engine} {status : Status}
  {before after : Session × World} {observation : Observation}

/-- What is shown behind an instruction describes it. -/
theorem describes_of_observe (placed : machine.Placed (block.instructions 0))
    (executes : machine.executes = true) (same : session.engine = machine.stepped.engine)
    (observed : session.observe = some observation) :
    observation.Describes session.options.window machine := by
  obtain ⟨index, last, observed⟩ := Option.bind_eq_some_iff.mp observed
  obtain ⟨instruction, found, observed⟩ := Option.bind_eq_some_iff.mp observed
  have turn := placed.step.2
  have attempts : machine.attempts = true := (Bool.and_eq_true_iff.mp executes).1
  rw [same, turn.lastIndex_eq, if_pos attempts] at last
  cases last
  rw [same, turn.program_eq] at found
  have steps := turn.steps_eq
  rw [executes] at steps
  cases observed
  refine ⟨executes, rfl, found, congrArg Engine.pointer same, ?_, ?_, ?_⟩
  · change ((session.engine.pointer - session.options.window).toNat : Int) =
      max 0 (session.engine.pointer - session.options.window)
    omega
  · rw [← same]
    simp only [List.range'_eq_map_range, List.map_map, Int.toNat_natCast]
    rfl
  · change (session.engine.steps : Int) = _
    rw [same, steps]
    rfl

/-- Somebody watches what the session does. -/
def Listeners.watches (listeners : Listeners World) (options : Options) : Bool :=
  decide (options.mode ≠ .silent) && listeners.observer.isSome

theorem grown_of_report {seen : Option Observation} (logs : listeners.Logs log)
    (active : before.1.active = true) (observed : before.1.observe = some observation)
    (reported : report listeners before.1.options.mode before = (.ok seen, after)) :
    Grown log (if listeners.watches before.1.options then [.showed observation] else [])
        before after ∧ ∀ shown ∈ seen, shown = observation := by
  rcases report_eq_ok reported with
    ⟨unheard, rfl, rfl⟩ | ⟨observer, observation', shows, heard, observed', called, rfl⟩
  · have unwatched : listeners.watches after.1.options = false := by
      rcases unheard with silent | unheard
      · simp [Listeners.watches, silent]
      · simp [Listeners.watches, unheard]
    rw [unwatched]
    exact ⟨.refl after, nofun⟩
  · cases observed.symm.trans observed'
    have watched : listeners.watches before.1.options = true := by
      simp [Listeners.watches, shows, heard]
    rw [watched]
    refine ⟨logs.observer observer heard observation before () after active called, ?_⟩
    rintro _ ⟨⟩
    rfl

/-- The status behind the instruction at an index that did not fail, and whether somebody was asked
for it. Nobody is asked about a breakpoint or at the end of the program. -/
inductive Answered (options : Options) (asking : Bool) (index : Int) (engine : Engine)
    (observation : Observation) : Status → List Event → Prop where
  | broken (enabled : options.breakpoints = true)
      (found : engine.program.at? index = some .breakpoint) :
      Answered options asking index engine observation (.pausedAtBreakpoint index) []
  | halted (unbroken : ¬ (options.breakpoints = true ∧
        engine.program.at? index = some .breakpoint)) (halted : engine.status = .halted) :
      Answered options asking index engine observation .halted []
  | unpaused (mode : options.mode ≠ .step) :
      Answered options asking index engine observation engine.status []
  | unasked (silent : asking = false) :
      Answered options asking index engine observation (.pausedForStep index) []
  | asked (unbroken : ¬ (options.breakpoints = true ∧
        engine.program.at? index = some .breakpoint)) (unhalted : engine.status ≠ .halted)
      (asks : asking = true) (agreed : Bool) :
      Answered options asking index engine observation
        (if agreed then engine.status else .pausedForStep index) [.asked observation agreed]

theorem Answered.reads_eq {asking : Bool} {events : List Event}
    (answered : Answered options asking index engine observation status events) :
    reads events = [] := by
  cases answered <;> rfl

theorem Answered.shown_eq {asking : Bool} {events : List Event}
    (answered : Answered options asking index engine observation status events) :
    shown events = [] := by
  cases answered <;> rfl

/-- Only a run that may wait asks, and only if there is somebody who may be asked. -/
def Listeners.asks (listeners : Listeners World) (blocking : Bool) : Bool :=
  blocking && listeners.acknowledge.isSome

theorem answered_of_settle {seen : Option Observation} (logs : listeners.Logs log)
    (active : before.1.active = true) (behind : before.1.Behind index)
    (observed : before.1.observe = some observation) (known : ∀ shown ∈ seen, shown = observation)
    (settled : settle listeners blocking index before.1.engine.status before.1.options.mode seen
      before = (.ok status, after)) :
    ∃ events, Grown log events before after ∧ Answered before.1.options
      (listeners.asks blocking) index before.1.engine observation status events := by
  rw [behind.settle_eq] at settled
  split at settled
  · next broken =>
    cases settled
    exact ⟨[], .refl _, .broken broken.1 broken.2⟩
  · next unbroken =>
    split at settled
    · next halted =>
      cases settled
      exact ⟨[], .refl _, .halted unbroken halted⟩
    · next unhalted =>
      split at settled
      · rcases consult_eq_ok settled with
          ⟨unasked, rfl, rfl⟩ | ⟨acknowledge, about, agreed, rfl, heard, found, called, rfl⟩
        · refine ⟨[], .refl _, .unasked ?_⟩
          rcases unasked with rfl | unheard
          · rfl
          · simp [Listeners.asks, unheard]
        · have same : about = observation := by
            cases seen with
            | none => exact Option.some.inj (found.symm.trans observed)
            | some shown => exact (Option.some.inj found).symm.trans (known shown rfl)
          subst same
          have asks : listeners.asks true = true := by simp [Listeners.asks, heard]
          exact ⟨_, logs.acknowledge acknowledge heard about before agreed after active called,
            .asked unbroken unhalted asks agreed⟩
      · next mode =>
        cases settled
        exact ⟨[], .refl _, .unpaused mode⟩

/-- Behind an instruction that did not fail one observation is made, if somebody watches. -/
theorem answered_of_attend (logs : listeners.Logs log) (active : before.1.active = true)
    (unfailed : ∀ underflow, before.1.engine.status ≠ .failed underflow)
    (behind : before.1.Behind index) (observed : before.1.observe = some observation)
    (attended : attend listeners blocking index before.1.engine.status before =
      (.ok status, after)) :
    ∃ events,
      Grown log ((if listeners.watches before.1.options then [.showed observation] else []) ++
        events) before after ∧
      Answered before.1.options (listeners.asks blocking) index before.1.engine observation
        status events := by
  rw [attend_of_unfailed unfailed] at attended
  obtain ⟨seen, middle, reported, settled⟩ := bind_eq_ok attended
  obtain ⟨grown, known⟩ := grown_of_report logs active observed reported
  obtain ⟨_, same⟩ := grown.1
  have engine : before.1.engine = middle.1.engine := by rw [same]
  have options : before.1.options = middle.1.options := by rw [same]
  rw [engine, options] at settled
  obtain ⟨events, grown', answered⟩ := answered_of_settle logs (by rw [same]; exact active)
    (behind.of_engine_eq engine.symm) (by rw [same]; exact observed) known settled
  rw [same] at answered
  exact ⟨events, grown.trans grown', answered⟩

/-- The session stands where a machine stands that reads what the log says was read, behind a
number of calls of `step`. The instructions that it has executed were shown, if somebody
watches. What it is going to read makes no difference. -/
structure Recorded (listeners : Listeners World) (log : World → List Event)
    (start : List (Option Int) → Machine) (options : Options) (count : Nat)
    (state : Session × World) : Prop where
  unchanged : state.1.options = options
  place : ∀ more, ∃ output,
    (start (reads (log state.2) ++ more)).afterCalls count = ⟨state.1.engine, ⟨more, output⟩⟩
  steps : state.1.engine.finished = false → state.1.engine.steps = count
  length : (shown (log state.2)).length =
    if listeners.watches options then state.1.engine.steps else 0
  chronicle : ∀ more, Chronicle options.window (start (reads (log state.2) ++ more))
    (shown (log state.2))

/-- An instruction is executed. The machine makes the same step, and nothing has been shown of it
yet. -/
structure Executed (log : World → List Event) (start : List (Option Int) → Machine)
    (options : Options) (count : Nat) (before : Session × World) (engine : Engine)
    (middle : Session × World) : Prop where
  left : ∃ interrupted, middle.1 = { before.1 with interrupted }
  added : ∃ events, log middle.2 = log before.2 ++ events ∧ Traffic events
  chronicle : ∀ more, Chronicle options.window (start (reads (log middle.2) ++ more))
    (shown (log middle.2))
  stood : ∀ more,
    ((start (reads (log middle.2) ++ more)).afterCalls count).engine = before.1.engine
  reached : ∀ more, ∃ output,
    ((start (reads (log middle.2) ++ more)).afterCalls count).stepped = ⟨engine, ⟨more, output⟩⟩

theorem Executed.shown_eq {middle : Session × World}
    (executed : Executed log start options count before engine middle) :
    shown (log middle.2) = shown (log before.2) := by
  obtain ⟨events, added, traffic⟩ := executed.added
  rw [added, traffic.shown_eq]

theorem Executed.stepped_eq {middle : Session × World}
    (executed : Executed log start options count before engine middle) (more : List (Option Int)) :
    ((start (reads (log middle.2) ++ more)).afterCalls count).stepped.engine = engine := by
  obtain ⟨output, reached⟩ := executed.reached more
  rw [reached]

theorem Recorded.execute {middle : Session × World}
    (recorded : Recorded listeners log start options count before) (logs : listeners.Logs log)
    (active : before.1.active = true)
    (executed : before.1.engine.step listeners.output listeners.input before =
      (.ok engine, middle)) : Executed log start options count before engine middle := by
  obtain ⟨events, ⟨left, added⟩, traffic, steps⟩ := grown_of_step logs active executed
  have shows : shown (log middle.2) = shown (log before.2) := by rw [added, traffic.shown_eq]
  have input (more : List (Option Int)) :
      reads (log middle.2) ++ more = reads (log before.2) ++ (reads events ++ more) := by
    rw [added, reads_append, List.append_assoc]
  refine ⟨left, ⟨events, added, traffic⟩, fun more => ?_, fun more => ?_, fun more => ?_⟩
  · rw [input, shows]
    exact recorded.chronicle _
  · obtain ⟨output, stands⟩ := recorded.place (reads events ++ more)
    rw [input, stands]
  · obtain ⟨output, stands⟩ := recorded.place (reads events ++ more)
    rw [input, stands]
    exact steps more output

section executed

variable {middle : Session × World}
  (executed : Executed log start options count before engine middle)
  (running : before.1.engine.finished = false)
include executed running

theorem Executed.attempts_eq (more : List (Option Int)) :
    ((start (reads (log middle.2) ++ more)).afterCalls count).attempts = true := by
  rw [Machine.attempts, executed.stood, running]
  rfl

theorem Executed.executes_eq (more : List (Option Int)) :
    ((start (reads (log middle.2) ++ more)).afterCalls count).executes =
      !engine.status.isFailed := by
  rw [Machine.executes, executed.attempts_eq running, executed.stepped_eq, Bool.true_and]

theorem Executed.steps_eq (begins : ∀ input, (start input).Begins (block.instructions 0)) :
    engine.steps = before.1.engine.steps + if engine.status.isFailed then 0 else 1 := by
  have turn := ((begins (reads (log middle.2) ++ [])).placed_afterCalls count).step.2
  have steps := turn.steps_eq
  rw [executed.executes_eq running, executed.stood, executed.stepped_eq] at steps
  rw [steps]
  cases engine.status.isFailed <;> rfl

theorem Executed.behind (begins : ∀ input, (start input).Begins (block.instructions 0)) :
    (withEngine middle engine).1.Behind before.1.engine.ip := by
  have placed := (begins (reads (log middle.2) ++ [])).placed_afterCalls count
  have stood := executed.stood []
  rw [← stood]
  exact behind_of_stepped placed (by rw [stood, running]) (executed.stepped_eq []).symm

theorem Executed.exists_observation (begins : ∀ input, (start input).Begins (block.instructions 0))
    (same : (withEngine middle engine).1.options = options)
    (unfailed : engine.status.isFailed = false) :
    ∃ observation, (withEngine middle engine).1.observe = some observation ∧
      ∀ more, observation.Describes options.window
        ((start (reads (log middle.2) ++ more)).afterCalls count) := by
  have placed (more : List (Option Int)) :=
    (begins (reads (log middle.2) ++ more)).placed_afterCalls count
  obtain ⟨observation, observed⟩ := (executed.behind running begins).exists_observe
  refine ⟨observation, observed, fun more => ?_⟩
  have executes := executed.executes_eq running more
  rw [unfailed] at executes
  rw [← same]
  exact describes_of_observe (placed more) executes (executed.stepped_eq more).symm observed

end executed

/-- Behind an instruction that did not fail the state is shown, and then somebody may be asked about
what was shown. -/
theorem Executed.attended {middle : Session × World}
    (executed : Executed log start options count before engine middle)
    (running : before.1.engine.finished = false) (unchanged : before.1.options = options)
    (logs : listeners.Logs log) (begins : ∀ input, (start input).Begins (block.instructions 0))
    (active : before.1.active = true) (unfailed : ∀ underflow, engine.status ≠ .failed underflow)
    (attended : attend listeners blocking before.1.engine.ip engine.status
      (withEngine middle engine) = (.ok status, after)) :
    ∃ observation events,
      (∀ more, observation.Describes options.window
        ((start (reads (log middle.2) ++ more)).afterCalls count)) ∧
      Grown log ((if listeners.watches options then [.showed observation] else []) ++ events)
        (withEngine middle engine) after ∧
      reads (log after.2) = reads (log middle.2) ∧
      Answered options (listeners.asks blocking) before.1.engine.ip engine observation status
        events := by
  obtain ⟨_, left⟩ := executed.left
  have same : (withEngine middle engine).1.options = options := by
    rw [withEngine, left]
    exact unchanged
  have active' : (withEngine middle engine).1.active = true := by
    rw [withEngine, left]
    exact active
  obtain ⟨observation, observed, describes⟩ :=
    executed.exists_observation running begins same (Status.isFailed_eq_false unfailed)
  obtain ⟨events, grown, answered⟩ := answered_of_attend logs active' unfailed
    (executed.behind running begins) observed attended
  rw [same] at grown answered
  refine ⟨observation, events, describes, grown, ?_, answered⟩
  rw [grown.2, reads_append, reads_append, answered.reads_eq]
  split <;> exact List.append_nil _

theorem Recorded.of_attended {middle : Session × World}
    (recorded : Recorded listeners log start options count before) (logs : listeners.Logs log)
    (begins : ∀ input, (start input).Begins (block.instructions 0))
    (active : before.1.active = true) (running : before.1.engine.finished = false)
    (executed : Executed log start options count before engine middle)
    (unfailed : ∀ underflow, engine.status ≠ .failed underflow)
    (attended : attend listeners blocking before.1.engine.ip engine.status
      (withEngine middle engine) = (.ok status, after)) :
    after.1.active = true ∧ Recorded listeners log start options (count + 1) after := by
  have steps := executed.steps_eq running begins
  rw [Status.isFailed_eq_false unfailed] at steps
  obtain ⟨observation, events, describes, ⟨⟨_, left'⟩, added⟩, reading, answered⟩ :=
    executed.attended running recorded.unchanged logs begins active unfailed attended
  have showing : shown (log after.2) =
      shown (log middle.2) ++ if listeners.watches options then [observation] else [] := by
    rw [added, shown_append, shown_append, answered.shown_eq]
    split <;> rfl
  obtain ⟨_, left⟩ := executed.left
  rw [withEngine, left] at left'
  have reached : after.1.engine = engine := by rw [left']
  refine ⟨by rw [left']; exact active, by rw [left']; exact recorded.unchanged, fun more => ?_,
    fun _ => ?_, ?_, fun more => ?_⟩
  · rw [reading, reached]
    exact executed.reached more
  · rw [reached, steps, recorded.steps running]
    rfl
  · rw [showing, List.length_append, executed.shown_eq, recorded.length, reached, steps]
    split <;> rfl
  · rw [reading, showing]
    split
    · next watched =>
      have many : (shown (log middle.2)).length = before.1.engine.steps := by
        rw [executed.shown_eq, recorded.length, if_pos watched]
      refine (executed.chronicle more).concat ?_ ?_
      · rw [(describes more).steps, executed.stood, many]
      · rw [many, recorded.steps running]
        exact describes more
    · rw [List.append_nil]
      exact executed.chronicle more

/-- One instruction leaves the record complete. -/
theorem Recorded.advance_running (recorded : Recorded listeners log start options count before)
    (logs : listeners.Logs log) (begins : ∀ input, (start input).Begins (block.instructions 0))
    (active : before.1.active = true) (running : before.1.engine.finished = false)
    (advances : Session.advance listeners blocking before = (.ok status, after)) :
    after.1.active = true ∧ Recorded listeners log start options (count + 1) after := by
  obtain ⟨engine, middle, stepped, attended⟩ :=
    (logs.still active).stepped_of_advance running advances
  have executed := recorded.execute logs active stepped
  rcases failed_or_unfailed engine.status with ⟨underflow, failed⟩ | unfailed
  · have steps := executed.steps_eq running begins
    rw [failed, attend_of_failed] at attended
    cases attended
    rw [failed] at steps
    obtain ⟨_, left⟩ := executed.left
    refine ⟨by rw [withEngine, left]; exact active,
      by rw [withEngine, left]; exact recorded.unchanged, executed.reached, fun running => ?_, ?_,
      executed.chronicle⟩
    · cases running.symm.trans (congrArg Status.isFinal failed)
    · rw [show (withEngine middle engine).1.engine.steps = _ from steps]
      exact (congrArg List.length executed.shown_eq).trans recorded.length
  · exact recorded.of_attended logs begins active running executed unfailed attended

theorem Recorded.advance (recorded : Recorded listeners log start options count before)
    (logs : listeners.Logs log) (begins : ∀ input, (start input).Begins (block.instructions 0))
    (active : before.1.active = true)
    (advances : Session.advance listeners blocking before = (.ok status, after)) :
    after.1.active = true ∧ ∃ count', Recorded listeners log start options count' after := by
  cases finished : before.1.engine.finished with
  | true =>
    rw [advance_of_finished finished] at advances
    cases advances
    exact ⟨active, count, recorded⟩
  | false =>
    have complete := recorded.advance_running logs begins active finished advances
    exact ⟨complete.1, count + 1, complete.2⟩

theorem recorded_spans : Spans
    (fun state : Session × World =>
      state.1.active = true ∧ ∃ count, Recorded listeners log start options count state)
    (fun state => ∃ count, Recorded listeners log start options count state) where
  enters := by
    rintro session world ⟨count, unchanged, place, steps, length, chronicle⟩
    exact ⟨rfl, count, unchanged, place, steps, length, chronicle⟩
  leaves := by
    rintro session world status ⟨-, count, unchanged, place, steps, length, chronicle⟩
    exact ⟨count, unchanged, place, steps, length, chronicle⟩
  asks := by
    rintro session world ⟨count, unchanged, place, steps, length, chronicle⟩
    exact ⟨count, unchanged, place, steps, length, chronicle⟩
  grants := by
    rintro session world ⟨active, count, unchanged, place, steps, length, chronicle⟩
    exact ⟨active, count, unchanged, place, steps, length, chronicle⟩

/-- Whatever is called on a session that is watched, what was shown are the instructions that its
engine has executed without failing, each once and in order. A session in silent mode shows
nothing. The engine is compared with that of a machine that reads what the session has read. -/
theorem observations_exact {listeners : Listeners World} {log : World → List Event}
    (logs : listeners.Logs log) {tokens : List Token} {source : String} {program : Program}
    (built : Program.ofTokens tokens source = .ok program) (options : Options) (size : Int)
    {world : World} (fresh : log world = []) {calls : List Call} {after : Session × World}
    (returned : Call.AllReturn listeners calls
      (Session.start program options (Tape.blank size), world) after) :
    let machine := Machine.load program (reads (log after.2)) (Tape.blank size)
    (∃ count, after.1.engine = (machine.afterCalls count).engine ∧
      after.1.engine.steps =
        (List.range count).countP fun earlier => (machine.afterCalls earlier).executes) ∧
    (options.mode = .silent → shown (log after.2) = []) ∧
    (options.mode ≠ .silent → listeners.observer.isSome = true →
      (shown (log after.2)).length = after.1.engine.steps ∧
        Chronicle options.window machine (shown (log after.2))) := by
  obtain ⟨block, -, rfl⟩ := Program.ofTokens_eq_ok_iff.mp built
  let loaded (input : List (Option Int)) : Machine :=
    Machine.load (Program.ofBlock block tokens source) input (Tape.blank size)
  have begins (input : List (Option Int)) : (loaded input).Begins (block.instructions 0) :=
    Machine.Begins.load (Program.ofBlock block tokens source) input size
  have initial : Recorded listeners log loaded options 0
      (Session.start (Program.ofBlock block tokens source) options (Tape.blank size), world) := by
    refine ⟨rfl, fun more => ⟨#[], ?_⟩, fun _ => rfl, ?_, fun more => ?_⟩
    · rw [fresh]
      rfl
    · rw [fresh]
      split <;> rfl
    · rw [fresh]
      exact nofun
  have kept (blocking : Bool) : Keeps (fun state : Session × World => state.1.active = true ∧
      ∃ count, Recorded listeners log loaded options count state) (advance listeners blocking) := by
    rintro before status after ⟨active, count, recorded⟩ advances
    exact recorded.advance logs begins active advances
  obtain ⟨count, recorded⟩ := returned.keeps recorded_spans kept ⟨0, initial⟩
  obtain ⟨output, place⟩ := recorded.place []
  have length := recorded.length
  have chronicle := recorded.chronicle []
  rw [List.append_nil] at place chronicle
  refine ⟨⟨count, ?_, ?_⟩, fun silent => ?_, fun shows heard => ⟨?_, chronicle⟩⟩
  · exact (congrArg Machine.engine place).symm
  · rw [← (begins (reads (log after.2))).steps_afterCalls count, place]
  · have unwatched : listeners.watches options = false := by simp [Listeners.watches, silent]
    rw [unwatched] at length
    exact List.length_eq_zero_iff.mp length
  · have watched : listeners.watches options = true := by simp [Listeners.watches, shows, heard]
    rw [watched] at length
    exact length

/-- A session of `+,<` in step mode, with one value to be read. -/
def underflowing : Session × List Event × List (Option Int) :=
  (Session.start ⟨#[.adjust 1, .input, .move (-1)], #[0, 1, 2], "+,<"⟩
    { mode := .step, window := 1 } (Tape.blank 4), [], [some 65])

/-- It is stopped before its first instruction, makes a single step and goes on until the third
instruction fails. Two instructions were shown. -/
theorem observations_exact_underflowing :
    ∃ after, Program.ofTokens
        [.ofSymbol .increment 0, .ofSymbol .input 1, .ofSymbol .left 2] "+,<" =
          .ok underflowing.1.engine.program ∧
      Call.AllReturn .logging [.interrupt, .resume none, .stepOnce, .resume none] underflowing
        after ∧
      after.1.engine.status = .failed ⟨2, 0⟩ ∧ reads after.2.1 = [some 65] ∧
      (shown after.2.1).length = 2 ∧ (shown after.2.1).length = after.1.engine.steps ∧
      Chronicle 1 (Machine.load underflowing.1.engine.program (reads after.2.1) (Tape.blank 4))
        (shown after.2.1) := by
  have built : Program.ofTokens
      [.ofSymbol .increment 0, .ofSymbol .input 1, .ofSymbol .left 2] "+,<" =
    .ok underflowing.1.engine.program := rfl
  have stops : resume .logging 1 (interrupt underflowing).2 = (.ok (some .running), _) :=
    apply_of_result (by decide +kernel)
  have steps : stepOnce .logging (resume .logging 1 (interrupt underflowing).2).2 =
      (.ok (.pausedForStep 0), _) := apply_of_result (by decide +kernel)
  have fails : resume .logging 2 (stepOnce .logging
      (resume .logging 1 (interrupt underflowing).2).2).2 = (.ok (some (.failed ⟨2, 0⟩)), _) :=
    apply_of_result (by decide +kernel)
  have returned : Call.AllReturn .logging [.interrupt, .resume none, .stepOnce, .resume none]
      underflowing _ :=
    .cons rfl (.cons ⟨1, _, stops⟩ (.cons ⟨_, steps⟩ (.cons ⟨2, _, fails⟩ (.nil _))))
  have exactly := observations_exact Listeners.logging_logs built { mode := .step, window := 1 } 4
    rfl returned
  have shows := exactly.2.2 nofun rfl
  exact ⟨_, built, returned, by decide +kernel, by decide +kernel, by decide +kernel, shows.1,
    shows.2⟩

end Session
end Brainfuck
