import Brainfuck.Proofs.Session.Following
import Brainfuck.Proofs.Session.Related

namespace Brainfuck

namespace Machine

variable {code : List Instruction} {ip : Nat} {data : Data} {machine : Machine}

theorem At.withStreams (stands : machine.At code ip data) (streams : Streams) :
    { machine with streams }.At code ip { data with streams } where
  code_eq := stands.code_eq
  ip_eq := stands.ip_eq
  within := stands.within
  data_eq := by
    rw [← stands.data_eq]
    rfl
  ready := ⟨stands.ready.onTape, stands.ready.unlimited⟩
  status := stands.status

theorem Placed.withStreams (placed : machine.Placed code) (streams : Streams) :
    { machine with streams }.Placed code := by
  cases placed with
  | stands stands => exact .stands (stands.withStreams streams)
  | failed stood inside => exact .failed (stood.withStreams streams) inside

end Machine

namespace Engine

variable {State : Type} {engine next : Engine} {write : UInt8 → ExceptT Fault (StateM State) Unit}
  {read : ExceptT Fault (StateM State) (Option Int)} {state after : State} {block : Block}

/-- The engine stands in the layout of a block, or it failed there. -/
def Placed (block : Block) (engine : Engine) : Prop :=
  ∀ streams, Machine.Placed (block.instructions 0) ⟨engine, streams⟩

theorem Placed.of_machine {machine : Machine} (placed : machine.Placed (block.instructions 0)) :
    machine.engine.Placed block :=
  fun streams => placed.withStreams streams

/-- Whoever writes and reads for an engine, it goes where a machine goes that reads the same. -/
theorem exists_stepped (executed : engine.step write read state = (.ok next, after)) :
    ∃ streams, (⟨engine, streams⟩ : Machine).stepped.engine = next := by
  have reaches {streams : Streams} {status : Status} {machine : Machine}
      (stepped : (⟨engine, streams⟩ : Machine).step = (.ok status, machine))
      (same : machine.engine = next) : (⟨engine, streams⟩ : Machine).stepped.engine = next := by
    rw [Machine.stepped, stepped, same]
  cases finished : engine.finished with
  | true =>
    rw [step_of_finished finished] at executed
    cases executed
    exact ⟨{}, reaches (Machine.step_of_finished finished) rfl⟩
  | false =>
    cases reaction : engine.react with
    | error fault =>
      rw [step_of_error finished reaction] at executed
      cases executed
    | ok reacted =>
      cases reacted with
      | silent reached =>
        rw [step_of_silent finished reaction] at executed
        cases executed
        exact ⟨{}, reaches (Machine.step_of_silent next finished reaction) rfl⟩
      | write value reached =>
        rw [step_of_write finished reaction] at executed
        obtain ⟨_, middle, -, returned⟩ := bind_eq_ok executed
        cases returned
        exact ⟨{}, reaches (Machine.step_of_write finished reaction) rfl⟩
      | read receive =>
        rw [step_of_read finished reaction] at executed
        obtain ⟨value, middle, -, returned⟩ := bind_eq_ok executed
        cases accepted : receive engine value with
        | error fault =>
          rw [accepted] at returned
          cases returned
        | ok reached =>
          rw [accepted] at returned
          cases returned
          have stepped : (⟨engine, { input := [value] }⟩ : Machine).step = _ :=
            Machine.step_of_read receive finished reaction accepted
          exact ⟨_, reaches stepped rfl⟩

theorem Placed.of_step (placed : engine.Placed block)
    (executed : engine.step write read state = (.ok next, after)) : next.Placed block := by
  obtain ⟨streams, rfl⟩ := exists_stepped executed
  exact .of_machine (placed streams).step.2.placed

theorem Placed.steps_of_step (placed : engine.Placed block) (running : engine.finished = false)
    (executed : engine.step write read state = (.ok next, after))
    (unfailed : ∀ underflow, next.status ≠ .failed underflow) : next.steps = engine.steps + 1 := by
  obtain ⟨streams, rfl⟩ := exists_stepped executed
  have succeeds := Status.isFailed_eq_false unfailed
  rw [(placed streams).step.2.steps_eq, Machine.executes, Machine.attempts, succeeds, running]
  rfl

theorem Placed.steps_le_of_step (placed : engine.Placed block)
    (executed : engine.step write read state = (.ok next, after)) : engine.steps ≤ next.steps := by
  obtain ⟨streams, rfl⟩ := exists_stepped executed
  rw [(placed streams).step.2.steps_eq]
  exact Nat.le_add_right _ _

theorem Placed.steps_le_succ_of_step (placed : engine.Placed block)
    (executed : engine.step write read state = (.ok next, after)) :
    next.steps ≤ engine.steps + 1 := by
  obtain ⟨streams, rfl⟩ := exists_stepped executed
  rw [(placed streams).step.2.steps_eq]
  refine Nat.add_le_add_left ?_ _
  split <;> decide

theorem not_failed_of_running (running : engine.finished = false) (underflow : Underflow) :
    engine.status ≠ .failed underflow := by
  intro failed
  rw [finished, failed] at running
  cases running

theorem Placed.react_ne_error (placed : engine.Placed block) (running : engine.finished = false)
    (fault : Fault) : engine.react ≠ .error fault := by
  intro reaction
  obtain ⟨_, _, found, stepped⟩ := bind_eq_ok (placed {}).step.1
  cases found
  obtain ⟨_, _, executed, -⟩ := bind_eq_ok stepped
  rw [step_of_error running reaction] at executed
  cases executed

theorem Placed.receive_ne_error {receive : Engine → Option Int → Except Fault Engine}
    (placed : engine.Placed block) (running : engine.finished = false)
    (reaction : engine.react = .ok (.read receive)) (value : Option Int) (fault : Fault) :
    receive engine value ≠ .error fault := by
  intro refused
  obtain ⟨_, _, found, stepped⟩ := bind_eq_ok (placed { input := [value] }).step.1
  cases found
  obtain ⟨_, _, executed, -⟩ := bind_eq_ok stepped
  rw [step_of_read running reaction] at executed
  obtain ⟨_, _, taken, received⟩ := bind_eq_ok executed
  cases taken
  rw [refused] at received
  cases received

end Engine

namespace Session

variable {World Result Next : Type}

/-- On a session that executes instructions, the action leaves the session as it is, but may ask
it to stop, whether it returns or raises. -/
def Discreet (action : Action World Result) : Prop :=
  ∀ state : Session × World, state.1.active = true →
    ∃ interrupted, (action state).2.1 = { state.1 with interrupted }

def Listeners.Discreet (listeners : Listeners World) : Prop :=
  listeners.All fun _ => Session.Discreet

namespace Discreet

variable {first : Action World Result} {second : Result → Action World Next}

theorem bind (begins : Discreet first) (continues : ∀ value, Discreet (second value)) :
    Discreet (first >>= second) := by
  intro state active
  obtain ⟨interrupted, left⟩ := begins state active
  rw [bind_apply]
  rcases ended : first state with ⟨fault | value, middle⟩
  · rw [ended] at left
    exact ⟨interrupted, left⟩
  · rw [ended] at left
    obtain ⟨interrupted', left'⟩ := continues value middle (by rw [left]; exact active)
    exact ⟨interrupted', by rw [left', left]⟩

theorem congruence : Congruence fun Result (action _ : Action World Result) => Discreet action where
  pure _ state _ := ⟨state.1.interrupted, rfl⟩
  raise _ state _ := ⟨state.1.interrupted, rfl⟩
  current state _ := ⟨state.1.interrupted, rfl⟩
  bind := bind

end Discreet

variable {listeners : Listeners World} {blocking : Bool} {engine : Engine} {status : Status}
  {before point after left : Session × World} {fault : Fault} {block : Block} {count : Nat}

theorem Listeners.Discreet.still (discreet : listeners.Discreet)
    (active : before.1.active = true) : listeners.Still before where
  output _ called := by
    obtain ⟨_, same⟩ := discreet.output _ before active
    rw [called] at same
    rw [same]
  input _ called := by
    obtain ⟨_, same⟩ := discreet.input before active
    rw [called] at same
    rw [same]

/-- Executing an instruction is a step of the engine, and leaves the rest of the session as it
is. -/
theorem exists_stepped (discreet : listeners.Discreet) (active : before.1.active = true)
    (executed : execute listeners before = (.ok status, after)) :
    ∃ engine middle interrupted,
      before.1.engine.step listeners.output listeners.input before = (.ok engine, middle) ∧
        status = engine.status ∧ after.1 = { before.1 with engine, interrupted } := by
  obtain ⟨engine, middle, stepped, rfl, rfl⟩ := (discreet.still active).stepped executed
  obtain ⟨interrupted, same⟩ :=
    Discreet.congruence.step discreet.related before.1.engine before active
  rw [stepped] at same
  exact ⟨engine, middle, interrupted, stepped, rfl, by rw [withEngine, same]⟩

theorem active_of_execute (discreet : listeners.Discreet) (active : before.1.active = true)
    (executed : execute listeners before = (.ok status, after)) : after.1.active = true := by
  obtain ⟨_, _, _, -, -, left⟩ := exists_stepped discreet active executed
  rw [left]
  exact active

theorem left_of_report {mode : DebugMode} {seen : Option Observation}
    (discreet : listeners.Discreet) (active : before.1.active = true)
    (reported : report listeners mode before = (.ok seen, after)) :
    ∃ interrupted, after.1 = { before.1 with interrupted } := by
  obtain ⟨interrupted, shown⟩ :=
    Discreet.congruence.glances.report discreet.related mode before active
  rw [reported] at shown
  exact ⟨interrupted, shown⟩

theorem active_of_report {mode : DebugMode} {seen : Option Observation}
    (discreet : listeners.Discreet) (active : before.1.active = true)
    (reported : report listeners mode before = (.ok seen, after)) : after.1.active = true := by
  obtain ⟨_, same⟩ := left_of_report discreet active reported
  rw [same]
  exact active

theorem behind_of_execute (discreet : listeners.Discreet) (active : before.1.active = true)
    (running : before.1.engine.finished = false) (placed : before.1.engine.Placed block)
    (executed : execute listeners before = (.ok status, after)) :
    after.1.Behind before.1.engine.ip := by
  obtain ⟨_, _, _, stepped, -, left⟩ := exists_stepped discreet active executed
  obtain ⟨streams, same⟩ := Engine.exists_stepped stepped
  exact behind_of_stepped (placed streams) running (by rw [left, same])

/-- An engine that runs in the layout of a block always has an answer. -/
theorem not_faults (discreet : listeners.Discreet) (active : before.1.active = true)
    (running : before.1.engine.finished = false) (placed : before.1.engine.Placed block) :
    ¬ Faults listeners before fault := by
  intro faults
  cases faults with
  | execute reaction => exact placed.react_ne_error running _ reaction
  | store reaction called refused =>
    rw [(discreet.still active).input reaction called] at refused
    exact placed.receive_ne_error running reaction _ _ refused
  | unseen executed lost =>
    obtain ⟨_, observed⟩ :=
      (behind_of_execute discreet active running placed executed).exists_observe
    cases lost.symm.trans observed
  | lost executed reported lost =>
    obtain ⟨_, left⟩ :=
      left_of_report discreet (active_of_execute discreet active executed) reported
    have behind := behind_of_execute discreet active running placed executed
    have same := congrArg Session.engine left
    obtain ⟨_, observed⟩ := (behind.of_engine_eq same).exists_observe
    cases lost.symm.trans observed

/-- What a callback that raises leaves of the session: its engine is the one that the callback
found. -/
theorem Raised.left_eq (raised : Raised listeners blocking point fault engine left)
    (discreet : listeners.Discreet) (active : point.1.active = true) :
    ∃ interrupted, left.1 = { point.1 with engine, interrupted } := by
  cases raised with
  | @output value _ _ _ raised =>
    obtain ⟨interrupted, same⟩ := discreet.output value point active
    rw [raised] at same
    exact ⟨interrupted, same⟩
  | input _ raised =>
    obtain ⟨interrupted, same⟩ := discreet.input point active
    rw [raised] at same
    exact ⟨interrupted, same⟩
  | observer executed _ _ heard _ raised =>
    obtain ⟨_, _, _, -, -, shown⟩ := exists_stepped discreet active executed
    obtain ⟨interrupted, same⟩ := discreet.observer _ heard _ _ (by rw [shown]; exact active)
    rw [raised, shown] at same
    exact ⟨interrupted, by rw [same, shown]⟩
  | acknowledge executed _ reported _ _ asked _ raised =>
    obtain ⟨_, _, _, -, -, shown⟩ := exists_stepped discreet active executed
    obtain ⟨_, shown'⟩ := left_of_report discreet (by rw [shown]; exact active) reported
    rw [shown] at shown'
    obtain ⟨interrupted, same⟩ := discreet.acknowledge _ asked _ _ (by rw [shown']; exact active)
    rw [raised, shown'] at same
    exact ⟨interrupted, by rw [same, shown']⟩

/-- An instruction was executed and settled. Only that one step of the engine was made, and the
session was asked to stop or was not. -/
structure Advanced (listeners : Listeners World) (before : Session × World) (status : Status)
    (engine : Engine) (after : Session × World) : Prop where
  executed : ∃ middle, before.1.engine.step listeners.output listeners.input before =
    (.ok engine, middle)
  left : ∃ interrupted, after.1 = { before.1 with engine, interrupted }
  failed : ∀ underflow, engine.status = .failed underflow → status = .failed underflow

theorem exists_advanced (discreet : listeners.Discreet) (active : before.1.active = true)
    (running : before.1.engine.finished = false)
    (advanced : advance listeners blocking before = (.ok status, after)) :
    ∃ engine, Advanced listeners before status engine after := by
  obtain ⟨_, middle, executed, settled⟩ := executed_of_advance running advanced
  obtain ⟨engine, _, _, stepped, rfl, shown⟩ := exists_stepped discreet active executed
  obtain ⟨interrupted, same⟩ := Discreet.congruence.glances.attend discreet.related blocking
    before.1.engine.ip engine.status middle (by rw [shown]; exact active)
  rw [settled, shown] at same
  refine ⟨engine, ⟨_, stepped⟩, ⟨interrupted, same⟩, fun underflow failed => ?_⟩
  rw [failed, attend_of_failed] at settled
  cases settled
  rfl

namespace Advanced

theorem engine_eq (advanced : Advanced listeners before status engine after) :
    after.1.engine = engine := by
  obtain ⟨_, left⟩ := advanced.left
  rw [left]

theorem active_eq (advanced : Advanced listeners before status engine after) :
    after.1.active = before.1.active := by
  obtain ⟨_, left⟩ := advanced.left
  rw [left]

theorem placed (advanced : Advanced listeners before status engine after)
    (stood : before.1.engine.Placed block) : after.1.engine.Placed block := by
  obtain ⟨_, executed⟩ := advanced.executed
  rw [advanced.engine_eq]
  exact stood.of_step executed

theorem steps_le (advanced : Advanced listeners before status engine after)
    (stood : before.1.engine.Placed block) : before.1.engine.steps ≤ after.1.engine.steps := by
  obtain ⟨_, executed⟩ := advanced.executed
  rw [advanced.engine_eq]
  exact stood.steps_le_of_step executed

theorem steps_le_succ (advanced : Advanced listeners before status engine after)
    (stood : before.1.engine.Placed block) :
    after.1.engine.steps ≤ before.1.engine.steps + 1 := by
  obtain ⟨_, executed⟩ := advanced.executed
  rw [advanced.engine_eq]
  exact stood.steps_le_succ_of_step executed

theorem steps_eq (advanced : Advanced listeners before status engine after)
    (stood : before.1.engine.Placed block) (running : before.1.engine.finished = false)
    (unfailed : ∀ underflow, after.1.engine.status ≠ .failed underflow) :
    after.1.engine.steps = before.1.engine.steps + 1 := by
  obtain ⟨_, executed⟩ := advanced.executed
  rw [advanced.engine_eq] at unfailed ⊢
  exact stood.steps_of_step running executed unfailed

end Advanced

/-- A run has come a number of instructions further, and has changed nothing else. -/
structure Further (block : Block) (count : Nat) (before after : Session × World) : Prop where
  left : ∃ engine interrupted, after.1 = { before.1 with engine, interrupted }
  placed : after.1.engine.Placed block
  steps : after.1.engine.finished = false →
    before.1.engine.finished = false ∧ after.1.engine.steps = before.1.engine.steps + count

theorem Further.active_eq (further : Further block count before after) :
    after.1.active = before.1.active := by
  obtain ⟨_, _, left⟩ := further.left
  rw [left]

theorem Completed.further (completed : Completed listeners count before after)
    (discreet : listeners.Discreet) (active : before.1.active = true)
    (placed : before.1.engine.Placed block) : Further block count before after := by
  induction completed with
  | refl state => exact ⟨⟨_, _, rfl⟩, placed, fun running => ⟨running, rfl⟩⟩
  | @next count before middle after _ ready advances _ _ ih =>
    obtain ⟨engine, advanced⟩ := exists_advanced discreet active ready.running advances
    have further := ih (advanced.active_eq.trans active) (advanced.placed placed)
    refine ⟨?_, further.placed, fun running => ⟨ready.running, ?_⟩⟩
    · obtain ⟨_, left⟩ := advanced.left
      obtain ⟨engine', interrupted', left'⟩ := further.left
      exact ⟨engine', interrupted', by rw [left', left]⟩
    · obtain ⟨goesOn, steps⟩ := further.steps running
      rw [steps, advanced.steps_eq placed ready.running (Engine.not_failed_of_running goesOn)]
      omega

theorem Raised.placed (raised : Raised listeners blocking point fault engine left)
    (discreet : listeners.Discreet) (active : point.1.active = true)
    (placed : point.1.engine.Placed block) :
    engine.Placed block ∧ point.1.engine.steps ≤ engine.steps := by
  cases raised with
  | output _ _ => exact ⟨placed, Nat.le_refl _⟩
  | input _ _ => exact ⟨placed, Nat.le_refl _⟩
  | observer executed _ _ _ _ _ =>
    obtain ⟨_, _, _, stepped, -, shown⟩ := exists_stepped discreet active executed
    rw [shown]
    exact ⟨placed.of_step stepped, placed.steps_le_of_step stepped⟩
  | acknowledge executed _ reported _ _ _ _ _ =>
    obtain ⟨_, _, _, stepped, -, shown⟩ := exists_stepped discreet active executed
    obtain ⟨_, shown'⟩ := left_of_report discreet (by rw [shown]; exact active) reported
    rw [shown', shown]
    exact ⟨placed.of_step stepped, placed.steps_le_of_step stepped⟩

/-- The session executes instructions, its engine always has an answer, and a number of
instructions is behind it. -/
structure Sound (block : Block) (least : Nat) (session : Session) : Prop where
  active : session.active = true
  placed : session.engine.Placed block
  steps : least ≤ session.engine.steps

namespace Sound

variable {least : Nat}

theorem advance (discreet : listeners.Discreet) (blocking : Bool) :
    Maintains (Sound block least) (Session.advance listeners blocking) := by
  rintro state ⟨active, placed, steps⟩
  cases finished : state.1.engine.finished with
  | true =>
    rw [advance_of_finished finished]
    exact ⟨active, placed, steps⟩
  | false =>
    rcases advances : Session.advance listeners blocking state with ⟨fault | status, after⟩
    · rcases raised_of_advance finished advances with ⟨engine, raised⟩ | faults
      · obtain ⟨_, left⟩ := raised.left_eq discreet active
        obtain ⟨placed', more⟩ := raised.placed discreet active placed
        change Sound block least after.1
        rw [left]
        exact ⟨active, placed', Nat.le_trans steps more⟩
      · exact absurd faults (not_faults discreet active finished placed)
    · obtain ⟨engine, advanced⟩ := exists_advanced discreet active finished advances
      exact ⟨advanced.active_eq.trans active, advanced.placed placed,
        Nat.le_trans steps (advanced.steps_le placed)⟩

theorem boundary :
    Maintains (Sound block least) (Session.boundary : Action World (Option Status)) := by
  rintro state ⟨active, placed, steps⟩
  rw [boundary_apply]
  split
  · exact ⟨active, placed, steps⟩
  · split
    · exact ⟨active, placed, steps⟩
    · exact ⟨active, placed, steps⟩

theorem run (discreet : listeners.Discreet) (allowance : Nat) :
    Maintains (Sound block least) (Session.run listeners allowance) := by
  induction allowance with
  | zero => exact boundary
  | succ allowance ih =>
    refine boundary.bind fun ended => ?_
    split
    · exact .pure _
    · refine (advance discreet true).bind fun status => ?_
      split
      · exact .pure _
      · exact ih

theorem body (discreet : listeners.Discreet) (entry : Entry) :
    Maintains (Sound block least) (entry.body listeners) := by
  cases entry with
  | resume fuel => exact run discreet fuel
  | resumeFor count => exact (run discreet count).bind fun ended => .pure _
  | stepOnce => exact (advance discreet false).bind fun status => .pure _

end Sound

theorem Entry.placed_perform (discreet : listeners.Discreet) (idle : before.1.active = false)
    (placed : before.1.engine.Placed block) (entry : Entry) :
    (entry.perform listeners before).2.1.engine.Placed block ∧
      before.1.engine.steps ≤ (entry.perform listeners before).2.1.engine.steps := by
  have sound : Sound block before.1.engine.steps (enter before).1 :=
    ⟨rfl, placed, Nat.le_refl before.1.engine.steps⟩
  have left := Sound.body discreet entry (enter before) sound
  rw [entry.perform_of_idle idle, closed_engine]
  exact ⟨left.placed, left.steps⟩

theorem Reached.placed {fresh : Session × World} (reached : Reached listeners fresh before)
    (discreet : listeners.Discreet) (idle : fresh.1.active = false)
    (placed : fresh.1.engine.Placed block) : before.1.engine.Placed block := by
  induction reached with
  | fresh => exact placed
  | @returned state after entry _ reached returned ih =>
    have left : (entry.perform listeners state).2.1.engine.Placed block :=
      (entry.placed_perform discreet (reached.idle idle) ih).1
    rwa [returned] at left
  | @raised state after entry _ reached raised ih =>
    have left : (entry.perform listeners state).2.1.engine.Placed block :=
      (entry.placed_perform discreet (reached.idle idle) ih).1
    rwa [raised] at left
  | interrupted _ ih => exact ih

theorem Entry.Stands.further {entry : Entry} (stands : entry.Stands listeners before count point)
    (discreet : listeners.Discreet) (placed : before.1.engine.Placed block) :
    Further block count (enter before) point := by
  cases stands with
  | run _ _ completed _ => exact completed.further discreet rfl placed
  | stepOnce running => exact ⟨⟨_, _, rfl⟩, placed, fun running => ⟨running, rfl⟩⟩

theorem start_placed {tokens : List Token} {source : String} {program : Program}
    (built : Program.ofTokens tokens source = .ok program) (options : Options) (size : Int) :
    ∃ block, (start program options (Tape.blank size)).engine.Placed block := by
  obtain ⟨block, -, rfl⟩ := Program.ofTokens_eq_ok_iff.mp built
  have begins := Machine.Begins.load (Program.ofBlock block tokens source) [] size
  exact ⟨block, .of_machine begins.placed⟩

end Session
end Brainfuck
