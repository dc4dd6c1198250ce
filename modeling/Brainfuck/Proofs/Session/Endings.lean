import Brainfuck.Proofs.Session.Settling
import Brainfuck.Proofs.Session.TapeSize
import Brainfuck.Proofs.Session.Truth

namespace Brainfuck

theorem Block.delta_of_mem {block : Block} {base : Nat} {delta : Int}
    (mem : .move delta ∈ block.instructions base) : delta = 1 ∨ delta = -1 := by
  induction block generalizing base with
  | empty => cases mem
  | primitive first rest ih =>
    rcases List.mem_cons.mp mem with same | later
    · cases first <;> cases same
      · exact .inl rfl
      · exact .inr rfl
    · exact ih later
  | loop body rest ihBody ihRest =>
    rcases List.mem_cons.mp mem with same | later
    · cases same
    · rcases List.mem_append.mp later with inner | outer
      · exact ihBody inner
      · rcases List.mem_cons.mp outer with same | later
        · cases same
        · exact ihRest later

namespace Engine

/-- The next instruction is a move to the left, and the pointer is at cell 0. -/
structure AtEdge (engine : Engine) : Prop where
  running : engine.finished = false
  left : engine.program.at? engine.ip = some (.move (-1))
  pointer : engine.pointer = 0

/-- A step fails exactly at the edge. Whoever writes and reads, it then does neither,
and changes only the status and the last index. -/
structure FailsAtEdge (engine : Engine) : Prop where
  fails_iff : engine.finished = false →
    ∀ {State : Type} (write : UInt8 → ExceptT Fault (StateM State) Unit)
      (read : ExceptT Fault (StateM State) (Option Int)) (state after : State) (next : Engine),
      engine.step write read state = (.ok next, after) →
        ((∃ underflow, next.status = .failed underflow) ↔ engine.AtEdge)
  untouched : engine.AtEdge →
    ∀ {m : Type → Type} [Monad m] [MonadExceptOf Fault m] (write : UInt8 → m Unit)
      (read : m (Option Int)), engine.step write read = pure { engine with
        lastIndex := some engine.ip
        status := .failed ⟨engine.ip, 0⟩ }

variable {engine : Engine}

theorem AtEdge.fail_eq (edge : engine.AtEdge) : engine.fail =
    { engine with lastIndex := some engine.ip, status := .failed ⟨engine.ip, 0⟩ } := by
  rw [fail, edge.pointer]

theorem AtEdge.react (edge : engine.AtEdge) : engine.react = .ok (.silent engine.fail) := by
  have below : engine.pointer + -1 < 0 := by rw [edge.pointer]; decide
  have moved : engine.move (-1) = engine.fail := if_pos below
  simp only [Engine.react, edge.left, moved]

/-- Whoever writes and reads, nothing is written or read at the edge. -/
theorem AtEdge.step {m : Type → Type} [Monad m] [MonadExceptOf Fault m] (edge : engine.AtEdge)
    (write : UInt8 → m Unit) (read : m (Option Int)) :
    engine.step write read = pure engine.fail :=
  step_of_silent edge.running edge.react

end Engine

/-- A machine that stands in the layout of a block fails exactly at the edge. -/
theorem Machine.Placed.fails_iff {machine : Machine} {block : Block}
    (placed : machine.Placed (block.instructions 0)) (running : machine.engine.finished = false) :
    (∃ underflow, machine.stepped.engine.status = .failed underflow) ↔ machine.engine.AtEdge := by
  constructor
  · rintro ⟨underflow, fails⟩
    cases placed with
    | failed => cases running
    | @stands _ ip data stands =>
      have inside := stands.inside running
      obtain ⟨instruction, found, valid⟩ := block.fits_instructions.valid (Nat.zero_le ip)
        (by simpa using inside)
      cases acts : data.act ip instruction with
      | none =>
        obtain ⟨delta, rfl, below⟩ := act_eq_none valid acts
        have onTape := stands.ready.onTape
        have pointer : machine.engine.pointer = data.pointer :=
          congrArg Data.pointer stands.data_eq
        rcases Block.delta_of_mem (List.mem_of_getElem? found) with rfl | rfl
        · omega
        · exact ⟨running, stands.fetch found, by omega⟩
      | some outcome =>
        obtain ⟨place, changed⟩ := outcome
        obtain ⟨next, rfl, within⟩ := act_within valid inside acts
        obtain ⟨step, stands'⟩ := stands.step next found acts within
        have same : machine.stepped = machine.goTo next changed := congrArg Prod.snd step
        rw [same, stands'.status] at fails
        split at fails <;> cases fails
  · intro edge
    have below : machine.engine.pointer + -1 < 0 := by rw [edge.pointer]; decide
    have same : machine.stepped = machine.failed :=
      congrArg Prod.snd (step_of_underflow edge.running edge.left below)
    exact ⟨_, congrArg (·.engine.status) same⟩

theorem Engine.Placed.fails_iff {State : Type} {engine next : Engine} {block : Block}
    {write : UInt8 → ExceptT Fault (StateM State) Unit}
    {read : ExceptT Fault (StateM State) (Option Int)} {state after : State}
    (placed : engine.Placed block) (running : engine.finished = false)
    (executed : engine.step write read state = (.ok next, after)) :
    (∃ underflow, next.status = .failed underflow) ↔ engine.AtEdge := by
  obtain ⟨streams, rfl⟩ := exists_stepped executed
  exact (placed streams).fails_iff running

namespace Session

variable {World : Type} {listeners : Listeners World} {blocking : Bool} {status : Status}
  {fresh state before point after : Session × World} {block : Block} {entry : Entry} {count : Nat}

/-- A session in which the engine has failed at the edge. -/
def overrun (point : Session × World) : Session × World :=
  withEngine point { point.1.engine with
    lastIndex := some point.1.engine.ip
    status := .failed ⟨point.1.engine.ip, 0⟩ }

/-- Whoever listens to the session, nobody hears of the failure. -/
theorem advance_of_atEdge (edge : point.1.engine.AtEdge) (listeners : Listeners World)
    (blocking : Bool) :
    advance listeners blocking point =
      (.ok (.failed ⟨point.1.engine.ip, 0⟩), overrun point) := by
  have executed : execute listeners point = (.ok _, withEngine point point.1.engine.fail) :=
    execute_of_silent edge.running edge.react
  rw [advance_of_executed edge.running executed, edge.fail_eq, attend_of_failed]
  rfl

theorem failed_iff_of_advance (discreet : listeners.Discreet) (active : before.1.active = true)
    (placed : before.1.engine.Placed block) (running : before.1.engine.finished = false)
    (advances : advance listeners blocking before = (.ok status, after)) :
    (∃ underflow, status = .failed underflow) ↔ before.1.engine.AtEdge := by
  obtain ⟨engine, advanced⟩ := exists_advanced discreet active running advances
  obtain ⟨_, executed⟩ := advanced.executed
  rw [← placed.fails_iff running executed, ← advanced.engine_eq]
  constructor
  · rintro ⟨underflow, rfl⟩
    cases settled_of_advance discreet active placed running advances with
    | failed failed => exact ⟨underflow, failed⟩
  · rintro ⟨underflow, failed⟩
    exact ⟨underflow, advanced.failed underflow (advanced.engine_eq ▸ failed)⟩

theorem run_of_finished (finished : before.1.engine.finished = true) (allowance : Nat) :
    run listeners allowance before = (.ok (some before.1.engine.status), before) := by
  have unready : ¬ before.1.Ready := by
    intro ready
    rw [ready.running] at finished
    cases finished
  rw [run_of_not_ready unready, boundary_apply, if_pos finished]

theorem run_of_atEdge {allowance : Nat} (edge : point.1.engine.AtEdge) (ready : point.1.Ready)
    (completed : Completed listeners count before point) (within : count < allowance) :
    run listeners allowance before =
      (.ok (some (.failed ⟨point.1.engine.ip, 0⟩)), overrun point) := by
  obtain ⟨more, rfl⟩ := Nat.exists_eq_add_of_lt within
  rw [Nat.add_assoc, completed.run, run_succ_of_ready ready, bind_apply,
    advance_of_atEdge edge listeners true]
  exact run_of_finished rfl more

theorem Entry.Stands.perform_of_atEdge (stands : entry.Stands listeners before count point)
    (idle : before.1.active = false) (edge : point.1.engine.AtEdge) :
    entry.perform listeners before =
      (.ok (some (.failed ⟨point.1.engine.ip, 0⟩)),
        leave (overrun point) (some (.failed ⟨point.1.engine.ip, 0⟩))) := by
  rw [entry.perform_of_idle idle]
  have ends : entry.body listeners (enter before) =
      (.ok (some (.failed ⟨point.1.engine.ip, 0⟩)), overrun point) := by
    cases stands with
    | @run _ allowance _ _ allowed within completed ready =>
      have ran := run_of_atEdge edge ready completed within
      cases entry with
      | resume fuel =>
        cases allowed
        exact ran
      | resumeFor limit =>
        cases allowed
        rw [body, map_apply, ran]
        rfl
      | stepOnce => cases allowed
    | stepOnce => rw [body, map_apply, advance_of_atEdge edge]
  rw [ends]
  rfl

/-- Execute instructions of the engine up to a number, or until it has finished. The session takes
no part in it. The result says whether the engine has finished. -/
def runEngine (listeners : Listeners World) : Nat → Action World Bool
  | 0 => return (← current).engine.finished
  | count + 1 => do
    if (← current).engine.finished then return true
    else
      let _ ← execute listeners
      runEngine listeners count

/-- The call as one that makes a session execute instructions. -/
def Call.entry? (fuel : Nat) : Call → Option Entry
  | resume none => some (.resume fuel)
  | resume (some limit) => some (.resumeFor limit.toNat)
  | stepOnce => some .stepOnce
  | interrupt | observe => none

theorem Call.perform_of_entry {call : Call} {fuel : Nat} (found : call.entry? fuel = some entry) :
    call.perform listeners fuel = Option.map .status <$> entry.perform listeners := by
  cases call with
  | resume limit =>
    cases limit with
    | none => cases found; rfl
    | some limit => cases found; rw [Entry.perform, Functor.map_map]; rfl
  | stepOnce => cases found; rw [Entry.perform, Functor.map_map]; rfl
  | interrupt | observe => cases found

/-- What can be done to a session, or to the engine that it drives. -/
inductive Operation where
  | step
  | run (limit : Option Int)
  | call (call : Call)

namespace Operation

/-- There is no answer if it is a run without a limit that the fuel does not suffice for. -/
def perform (listeners : Listeners World) (fuel : Nat) :
    Operation → Action World (Option Call.Answer)
  | step => return some (.status (← execute listeners))
  | run none => do
    if ← runEngine listeners fuel then return some (.status (← current).engine.status)
    else return none
  | run (some limit) => do
    let _ ← runEngine listeners limit.toNat
    return some (.status (← current).engine.status)
  | call asked => asked.perform listeners fuel

/-- The answer of a session whose engine has finished. -/
def answer (session : Session) : Operation → Call.Answer
  | step | run _ | call (.resume _) | call .stepOnce => .status session.engine.status
  | call .interrupt => .nothing
  | call .observe => .observation session.observe

theorem answer_of_entry {call : Call} {fuel : Nat} (found : call.entry? fuel = some entry)
    (session : Session) : (Operation.call call).answer session = .status session.engine.status := by
  cases call with
  | resume | stepOnce => rfl
  | interrupt | observe => cases found

end Operation

/-- A state that calls on the session and steps of its engine lead to, whether they return or
raise. The callbacks leave the session alone also while the engine makes a step by itself. -/
inductive Arrived (listeners : Listeners World) (fresh : Session × World) : Session × World → Prop
  where
  | fresh : Arrived listeners fresh fresh
  | called {state : Session × World} (arrived : Arrived listeners fresh state) (fuel : Nat)
      (call : Call) : Arrived listeners fresh (call.perform listeners fuel state).2
  | stepped {state : Session × World} {interrupted : Bool} (arrived : Arrived listeners fresh state)
      (alone : (state.1.engine.step listeners.output listeners.input state).2.1 =
        { state.1 with interrupted }) :
      Arrived listeners fresh (execute listeners state).2

theorem snd_map {First Second : Type} (change : First → Second) (action : Action World First)
    (state : Session × World) : ((change <$> action) state).2 = (action state).2 := by
  rw [map_apply]
  rcases action state with ⟨fault | value, left⟩ <;> rfl

/-- The session is idle, and its engine always has an answer. -/
structure Waiting (block : Block) (session : Session) : Prop where
  idle : session.active = false
  placed : session.engine.Placed block

theorem Waiting.perform (waiting : Waiting block state.1) (discreet : listeners.Discreet)
    (entry : Entry) : Waiting block (entry.perform listeners state).2.1 :=
  ⟨entry.idle_perform waiting.idle, (entry.placed_perform discreet waiting.idle waiting.placed).1⟩

theorem Waiting.call (waiting : Waiting block state.1) (discreet : listeners.Discreet) (fuel : Nat)
    (call : Call) : Waiting block (call.perform listeners fuel state).2.1 := by
  cases found : call.entry? fuel with
  | some entry =>
    rw [Call.perform_of_entry found, snd_map]
    exact waiting.perform discreet entry
  | none =>
    cases call with
    | resume limit => cases limit <;> cases found
    | stepOnce => cases found
    | interrupt => exact ⟨waiting.idle, waiting.placed⟩
    | observe => exact waiting

theorem still_of_alone {interrupted : Bool} (running : state.1.engine.finished = false)
    (alone : (state.1.engine.step listeners.output listeners.input state).2.1 =
      { state.1 with interrupted }) : listeners.Still state where
  output {_ _ middle} reaction called := by
    rw [Engine.step_of_write running reaction, bind_apply, called] at alone
    have left : middle.1 = { state.1 with interrupted } := alone
    rw [left]
  input {next value middle} reaction called := by
    rw [Engine.step_of_read running reaction, bind_apply, called] at alone
    have left : middle.1 = { state.1 with interrupted } := by
      cases accepted : next state.1.engine value with
      | error fault =>
        simp only [accepted] at alone
        exact alone
      | ok engine =>
        simp only [accepted] at alone
        exact alone
    rw [left]

theorem execute_of_alone {interrupted : Bool}
    (alone : (state.1.engine.step listeners.output listeners.input state).2.1 =
      { state.1 with interrupted }) :
    execute listeners state =
      match state.1.engine.step listeners.output listeners.input state with
      | (.ok engine, left) => (.ok engine.status, withEngine left engine)
      | (.error fault, left) => (.error fault, left) := by
  cases finished : state.1.engine.finished with
  | true =>
    rw [execute_of_finished finished, Engine.step_of_finished finished]
    rfl
  | false => exact (still_of_alone finished alone).execute_eq

theorem Waiting.step {interrupted : Bool} (waiting : Waiting block state.1)
    (alone : (state.1.engine.step listeners.output listeners.input state).2.1 =
      { state.1 with interrupted }) : Waiting block (execute listeners state).2.1 := by
  rw [execute_of_alone alone]
  rcases stepped : state.1.engine.step listeners.output listeners.input state
    with ⟨fault | engine, left⟩
  · rw [stepped] at alone
    change Waiting block left.1
    rw [alone]
    exact ⟨waiting.idle, waiting.placed⟩
  · rw [stepped] at alone
    change Waiting block (withEngine left engine).1
    rw [withEngine, alone]
    exact ⟨waiting.idle, waiting.placed.of_step stepped⟩

theorem Arrived.waiting (arrived : Arrived listeners fresh state) (discreet : listeners.Discreet)
    (waiting : Waiting block fresh.1) : Waiting block state.1 := by
  induction arrived with
  | fresh => exact waiting
  | called _ fuel call ih => exact ih.call discreet fuel call
  | stepped _ alone ih => exact ih.step alone

theorem runEngine_of_finished (finished : state.1.engine.finished = true) (count : Nat) :
    runEngine listeners count state = (.ok true, state) := by
  cases count with
  | zero =>
    change (Except.ok state.1.engine.finished, state) = _
    rw [finished]
  | succ count =>
    change (if state.1.engine.finished = true then return true else _ : Action World Bool) state = _
    rw [if_pos finished]
    rfl

theorem Entry.perform_of_finished (listeners : Listeners World) (idle : state.1.active = false)
    (finished : state.1.engine.finished = true) (entry : Entry) :
    entry.perform listeners state =
      (.ok (some state.1.engine.status),
        { state.1 with status := state.1.engine.status }, state.2) := by
  have entered : (enter state).1.engine.finished = true := finished
  have ends : entry.body listeners (enter state) =
      (.ok (some state.1.engine.status), enter state) := by
    cases entry with
    | resume fuel => exact run_of_finished entered fuel
    | resumeFor limit =>
      rw [body, map_apply, run_of_finished entered]
      rfl
    | stepOnce =>
      rw [body, map_apply, advance_of_finished entered]
      rfl
  rw [entry.perform_of_idle idle, ends]
  obtain ⟨⟨options, engine, active, interrupted, status⟩, world⟩ := state
  cases idle
  rfl

theorem Operation.perform_of_finished (listeners : Listeners World)
    (idle : state.1.active = false) (finished : state.1.engine.finished = true) (fuel : Nat)
    (operation : Operation) :
    ∃ interrupted status, operation.perform listeners fuel state =
      (.ok (some (operation.answer state.1)), { state.1 with interrupted, status }, state.2) := by
  cases operation with
  | step =>
    refine ⟨state.1.interrupted, state.1.status, ?_⟩
    rw [perform, bind_apply, execute_of_finished finished]
    rfl
  | run limit =>
    refine ⟨state.1.interrupted, state.1.status, ?_⟩
    cases limit with
    | none =>
      rw [perform, bind_apply, runEngine_of_finished finished]
      rfl
    | some limit =>
      rw [perform, bind_apply, runEngine_of_finished finished]
      rfl
  | call call =>
    cases found : call.entry? fuel with
    | some entry =>
      refine ⟨state.1.interrupted, state.1.engine.status, ?_⟩
      rw [perform, Call.perform_of_entry found, map_apply,
        entry.perform_of_finished listeners idle finished, answer_of_entry found]
      rfl
    | none =>
      cases call with
      | resume limit => cases limit <;> cases found
      | stepOnce => cases found
      | interrupt => exact ⟨true, state.1.status, rfl⟩
      | observe => exact ⟨state.1.interrupted, state.1.status, rfl⟩

theorem mapM_of_finished (idle : state.1.active = false)
    (finished : state.1.engine.finished = true) (fuel : Nat) (operations : List Operation) :
    ∃ interrupted status, operations.mapM (Operation.perform listeners fuel) state =
      (.ok (operations.map fun operation => some (operation.answer state.1)),
        { state.1 with interrupted, status }, state.2) := by
  induction operations generalizing state with
  | nil => exact ⟨state.1.interrupted, state.1.status, rfl⟩
  | cons operation operations ih =>
    obtain ⟨interrupted, status, first⟩ :=
      operation.perform_of_finished listeners idle finished fuel
    obtain ⟨interrupted', status', rest⟩ :=
      @ih ({ state.1 with interrupted, status }, state.2) idle finished
    have same (other : Operation) :
        other.answer { state.1 with interrupted, status } = other.answer state.1 := by
      rcases other with _ | _ | (_ | _ | _ | _) <;> rfl
    refine ⟨interrupted', status', ?_⟩
    rw [List.mapM_cons, bind_apply, first]
    simp only [bind_apply, rest, same, List.map_cons]
    rfl

/-- The instruction before which a call stands fails exactly at the edge. Whoever listens to the
session, nobody hears of it: the world stays as it is. The call ends there. -/
structure Entry.FailsAtEdge (listeners : Listeners World) (entry : Entry)
    (state point : Session × World) : Prop where
  fails_iff : ∀ status after, advance listeners entry.waits point = (.ok status, after) →
    ((∃ underflow, status = .failed underflow) ↔ point.1.engine.AtEdge)
  untouched : point.1.engine.AtEdge → ∀ (others : Listeners World) (blocking : Bool),
    advance others blocking point = (.ok (.failed ⟨point.1.engine.ip, 0⟩), overrun point)
  ends : point.1.engine.AtEdge → entry.perform listeners state =
    (.ok (some (.failed ⟨point.1.engine.ip, 0⟩)),
      leave (overrun point) (some (.failed ⟨point.1.engine.ip, 0⟩)))

/-- Whatever is done to the session and to its engine, the engine and the world stay as they are,
whoever listens, and each answer tells the status in which the engine has ended. -/
def Ended (state : Session × World) : Prop :=
  ∀ (others : Listeners World) (fuel : Nat) (operations : List Operation),
    ∃ interrupted status, operations.mapM (Operation.perform others fuel) state =
      (.ok (operations.map fun operation => some (operation.answer state.1)),
        { state.1 with interrupted, status }, state.2)

/-- Wherever a session of a built program has come to, failure is atomic and the end is final. -/
theorem failure_atomic_end_final (discreet : listeners.Discreet) {tokens : List Token}
    {source : String} {program : Program} (built : Program.ofTokens tokens source = .ok program)
    (options : Options) (size : Int) {world : World}
    (arrived : Arrived listeners (start program options (Tape.blank size), world) state) :
    state.1.engine.FailsAtEdge ∧
      (∀ (entry : Entry) count point, entry.Stands listeners state count point →
        entry.FailsAtEdge listeners state point) ∧
      (state.1.engine.finished = true → Ended state) := by
  obtain ⟨block, placed⟩ := start_placed built options size
  have waiting := arrived.waiting discreet ⟨rfl, placed⟩
  refine ⟨⟨fun running _ _ _ _ _ _ executed => waiting.placed.fails_iff running executed,
      fun edge _ _ _ write read => ?_⟩, fun entry count point stands => ?_,
    fun finished others fuel operations => mapM_of_finished waiting.idle finished fuel operations⟩
  · rw [edge.step, edge.fail_eq]
  · have further := stands.further discreet waiting.placed
    have active : point.1.active = true := further.active_eq
    exact {
      fails_iff := fun status after advances =>
        failed_iff_of_advance discreet active further.placed stands.running advances
      untouched := fun edge others blocking => advance_of_atEdge edge others blocking
      ends := fun edge => stands.perform_of_atEdge waiting.idle edge }

/-- A session of `+<` is stopped behind its first instruction. It fails with the second, and is
then asked to stop. -/
theorem failure_atomic_end_final_underflowing :
    let program : Program := ⟨#[.adjust 1, .move (-1)], #[0, 1], "+<"⟩
    let fresh : Session × Streams × List Bool :=
      (start program { mode := .verbose } (Tape.blank 1), {}, [])
    let edge := (Call.perform .scripted 2 (.resume none) fresh).2
    let final := (Call.perform .scripted 0 .interrupt
      (Call.perform .scripted 0 .stepOnce edge).2).2
    Program.ofTokens [.ofSymbol .increment 0, .ofSymbol .left 1] "+<" = .ok program ∧
      edge.1.status = .running ∧
      Entry.stepOnce.perform .scripted edge =
        (.ok (some (.failed ⟨1, 0⟩)), leave (overrun (enter edge)) (some (.failed ⟨1, 0⟩))) ∧
      final.1.interrupted = true ∧ final.1.engine.finished = true ∧ Ended final := by
  intro program fresh edge final
  have built : Program.ofTokens [.ofSymbol .increment 0, .ofSymbol .left 1] "+<" =
    .ok program := rfl
  have stopped : Arrived .scripted fresh edge := .called .fresh 2 (.resume none)
  have atEdge : (enter edge).1.engine.AtEdge := ⟨rfl, rfl, rfl⟩
  have fails := (failure_atomic_end_final Listeners.scripted_discreet built { mode := .verbose } 1
    stopped).2.1 .stepOnce 0 (enter edge) (.stepOnce rfl)
  have failed : Arrived .scripted fresh final := .called (.called stopped 0 .stepOnce) 0 .interrupt
  have ended := (failure_atomic_end_final Listeners.scripted_discreet built { mode := .verbose } 1
    failed).2.2 rfl
  exact ⟨built, rfl, fails.ends atEdge, rfl, rfl, ended⟩

end Session
end Brainfuck
