import Brainfuck.Machine

namespace Brainfuck

/-- Actions one after another: a fault of the first ends both. -/
theorem bind_apply {State First Second : Type} (first : ExceptT Fault (StateM State) First)
    (second : First → ExceptT Fault (StateM State) Second) (state : State) :
    (first >>= second) state =
      match first state with
      | (.ok value, after) => second value after
      | (.error fault, after) => (.error fault, after) := by
  simp only [bind, ExceptT.bind, ExceptT.mk, StateT.bind]
  obtain ⟨result, after⟩ := first state
  cases result <;> rfl

/-- What actions one after another return comes from the second, and it begins where
the first ends. -/
theorem bind_eq_ok {State First Second : Type} {first : ExceptT Fault (StateM State) First}
    {second : First → ExceptT Fault (StateM State) Second} {state final : State} {result : Second}
    (returned : (first >>= second) state = (.ok result, final)) :
    ∃ value middle, first state = (.ok value, middle) ∧
      second value middle = (.ok result, final) := by
  rw [bind_apply] at returned
  cases begun : first state with
  | mk outcome middle =>
    rw [begun] at returned
    cases outcome with
    | error fault => cases returned
    | ok value => exact ⟨value, middle, rfl, returned⟩

/-- What actions one after another raise comes from one of them; the second begins where the
first ends. -/
theorem bind_eq_error {State First Second : Type} {first : ExceptT Fault (StateM State) First}
    {second : First → ExceptT Fault (StateM State) Second} {state final : State} {fault : Fault}
    (raised : (first >>= second) state = (.error fault, final)) :
    first state = (.error fault, final) ∨
      ∃ value middle, first state = (.ok value, middle) ∧
        second value middle = (.error fault, final) := by
  rw [bind_apply] at raised
  cases begun : first state with
  | mk outcome middle =>
    rw [begun] at raised
    cases outcome with
    | error fault =>
      cases raised
      exact .inl rfl
    | ok value => exact .inr ⟨value, middle, rfl, raised⟩

theorem map_apply {State First Second : Type} (change : First → Second)
    (action : ExceptT Fault (StateM State) First) (state : State) :
    (change <$> action) state =
      match action state with
      | (.ok value, after) => (.ok (change value), after)
      | (.error fault, after) => (.error fault, after) := by
  simp only [Functor.map, ExceptT.map, ExceptT.mk, bind, StateT.bind]
  obtain ⟨result, after⟩ := action state
  cases result <;> rfl

namespace Engine

variable {m : Type → Type} [Monad m] [MonadExceptOf Fault m] {write : UInt8 → m Unit}
  {read : m (Option Int)} {engine : Engine}

theorem step_of_finished (finished : engine.finished = true) :
    engine.step write read = pure engine := by
  simp [step, finished]

theorem step_of_silent {next : Engine} (running : engine.finished = false)
    (reaction : engine.react = .ok (.silent next)) : engine.step write read = pure next := by
  simp [step, running, reaction]

theorem step_of_write {value : UInt8} {next : Engine → Engine} (running : engine.finished = false)
    (reaction : engine.react = .ok (.write value next)) :
    engine.step write read = (do write value; pure (next engine)) := by
  simp [step, running, reaction]

theorem step_of_read {next : Engine → Option Int → Except Fault Engine}
    (running : engine.finished = false) (reaction : engine.react = .ok (.read next)) :
    engine.step write read = (do
      match next engine (← read) with
      | .error fault => throw fault
      | .ok engine => pure engine) := by
  have continues : ¬ engine.finished = true := by simp [running]
  rw [step, if_neg continues]
  generalize engine.react = reacted at reaction
  subst reaction
  rfl

theorem step_of_error {fault : Fault} (running : engine.finished = false)
    (reaction : engine.react = .error fault) : engine.step write read = throw fault := by
  simp [step, running, reaction]

end Engine

namespace Machine

/-- What a program works on. -/
structure Data where
  tape : Tape
  pointer : Int
  streams : Streams

namespace Data

def cell (data : Data) : UInt8 := data.tape.read data.pointer.toNat

def write (data : Data) (value : UInt8) : Data :=
  { data with tape := (data.tape.store data.pointer.toNat value).touch data.pointer }

/-- Take the next input into the cell; without one it stays as it is. -/
def receive (data : Data) : Data :=
  match data.streams.read with
  | (none, streams) => { data with streams }
  | (some value, streams) => { data with streams }.write (.ofInt value)

/-- What an instruction at an index does, and which index is next. Nothing is done
by a move to the left of cell 0. -/
def act (data : Data) (ip : Int) : Instruction → Option (Int × Data)
  | .move delta =>
    if data.pointer + delta < 0 then none
    else
      some (ip + 1, { data with
        pointer := data.pointer + delta
        tape := data.tape.touch (data.pointer + delta) })
  | .adjust delta => some (ip + 1, data.write (data.cell + .ofInt delta))
  | .output => some (ip + 1, { data with streams := data.streams.write data.cell })
  | .input => some (ip + 1, data.receive)
  | .jumpIfZero target => some (if data.cell = 0 then target + 1 else ip + 1, data)
  | .jumpIfNonzero target => some (if data.cell = 0 then ip + 1 else target + 1, data)
  | .breakpoint => some (ip + 1, data)
  | .foreign _ => none

/-- The pointer is on the tape, and the tape has no limit. -/
structure Ready (data : Data) : Prop where
  onTape : 0 ≤ data.pointer
  unlimited : data.tape.room = none

variable {data : Data}

theorem Ready.pointer_eq (ready : data.Ready) : data.pointer = (data.pointer.toNat : Int) :=
  (Int.toNat_of_nonneg ready.onTape).symm

theorem Ready.get (ready : data.Ready) : data.tape.get data.pointer = .ok data.cell := by
  rw [ready.pointer_eq, Tape.get_natCast]
  rfl

theorem Ready.put (ready : data.Ready) (value : UInt8) :
    data.tape.put data.pointer value = .ok (data.write value).tape := by
  rw [ready.pointer_eq, Tape.put_natCast ready.unlimited, write, ← ready.pointer_eq]

theorem Ready.add (ready : data.Ready) (delta : Int) :
    data.tape.add data.pointer delta =
      .ok (data.cell + .ofInt delta, (data.write (data.cell + .ofInt delta)).tape) := by
  rw [Tape.add, ready.get]
  change (do return (_, ← data.tape.put data.pointer _)) = _
  rw [ready.put]
  rfl

theorem Ready.write (ready : data.Ready) (value : UInt8) : (data.write value).Ready :=
  ⟨ready.onTape, ready.unlimited⟩

theorem Ready.receive (ready : data.Ready) : data.receive.Ready := by
  unfold Data.receive
  split
  · exact ⟨ready.onTape, ready.unlimited⟩
  · next value streams _ =>
    have kept : Ready { data with streams } := ⟨ready.onTape, ready.unlimited⟩
    exact kept.write _

theorem Ready.act {instruction : Instruction} {ip next : Int} {after : Data} (ready : data.Ready)
    (acts : data.act ip instruction = some (next, after)) : after.Ready := by
  cases instruction with
  | move delta =>
    simp only [Data.act] at acts
    split at acts
    · cases acts
    · next bound =>
      cases acts
      exact ⟨by simpa using bound, ready.unlimited⟩
  | adjust delta => cases acts; exact ready.write _
  | output => cases acts; exact ⟨ready.onTape, ready.unlimited⟩
  | input => cases acts; exact ready.receive
  | jumpIfZero target => cases acts; exact ready
  | jumpIfNonzero target => cases acts; exact ready
  | breakpoint => cases acts; exact ready
  | foreign text => cases acts

end Data

def data (machine : Machine) : Data :=
  ⟨machine.engine.tape, machine.engine.pointer, machine.streams⟩

/-- The machine after an instruction that led to an index and to data. -/
def goTo (machine : Machine) (next : Int) (data : Data) : Machine :=
  { engine := { machine.engine with tape := data.tape, pointer := data.pointer }.proceed next
    streams := data.streams }

variable {machine : Machine}

theorem step_of_engine {engine : Engine} (after : Machine)
    (stepped : machine.engine.step write read machine = (.ok engine, after)) :
    machine.step = (.ok engine.status, { after with engine }) := by
  change (get >>= fun current : Machine => current.engine.step write read >>= _) machine = _
  rw [bind_apply]
  change (machine.engine.step write read >>= _) machine = _
  rw [bind_apply, stepped]
  rfl

theorem step_of_finished (finished : machine.engine.finished = true) :
    machine.step = (.ok machine.engine.status, machine) :=
  step_of_engine machine (by rw [Engine.step_of_finished finished]; rfl)

theorem step_of_silent (next : Engine) (running : machine.engine.finished = false)
    (reaction : machine.engine.react = .ok (.silent next)) :
    machine.step = (.ok next.status, { machine with engine := next }) :=
  step_of_engine machine (by rw [Engine.step_of_silent running reaction]; rfl)

theorem step_of_write {value : UInt8} {next : Engine → Engine}
    (running : machine.engine.finished = false)
    (reaction : machine.engine.react = .ok (.write value next)) :
    machine.step =
      (.ok (next machine.engine).status, ⟨next machine.engine, machine.streams.write value⟩) :=
  step_of_engine { machine with streams := machine.streams.write value }
    (by rw [Engine.step_of_write running reaction]; rfl)

theorem step_of_read {engine : Engine} (next : Engine → Option Int → Except Fault Engine)
    (running : machine.engine.finished = false)
    (reaction : machine.engine.react = .ok (.read next))
    (received : next machine.engine machine.streams.read.1 = .ok engine) :
    machine.step = (.ok engine.status, ⟨engine, machine.streams.read.2⟩) := by
  apply step_of_engine { machine with streams := machine.streams.read.2 }
  rw [Engine.step_of_read running reaction, bind_apply]
  change (match next machine.engine machine.streams.read.1 with
    | .error fault => throw fault
    | .ok engine => pure engine : Action Engine)
      { machine with streams := machine.streams.read.2 } = _
  rw [received]
  rfl

theorem move_eq {delta : Int} (bound : ¬ machine.engine.pointer + delta < 0) :
    machine.engine.move delta = (machine.goTo (machine.engine.ip + 1) { machine.data with
      pointer := machine.engine.pointer + delta
      tape := machine.engine.tape.touch (machine.engine.pointer + delta) }).engine :=
  if_neg bound

theorem adjust_eq (ready : machine.data.Ready) (delta : Int) :
    machine.engine.adjust delta = .ok (machine.goTo (machine.engine.ip + 1)
      (machine.data.write (machine.data.cell + .ofInt delta))).engine := by
  have sum : machine.engine.tape.add machine.engine.pointer delta = _ := ready.add delta
  simp only [Engine.adjust, sum]
  rfl

theorem jump_eq (ready : machine.data.Ready) (target : Int) (test : UInt8 → Bool) :
    machine.engine.jump target test = .ok (machine.goTo
      (if test machine.data.cell then target + 1 else machine.engine.ip + 1)
      machine.data).engine := by
  change (do
    let cell ← machine.data.tape.get machine.data.pointer
    return _) = _
  rw [ready.get]
  rfl

theorem receive_eq (ready : machine.data.Ready) :
    machine.engine.receive machine.streams.read.1 =
      .ok (machine.goTo (machine.engine.ip + 1) machine.data.receive).engine := by
  unfold Data.receive
  change Engine.receive _ machine.data.streams.read.1 = _
  split
  · next streams taken => rw [taken]; rfl
  · next value streams taken =>
    rw [taken]
    change (do
      let tape ← machine.data.tape.put machine.data.pointer (.ofInt value)
      return _) = _
    rw [ready.put]
    rfl

/-- A machine does what the instruction at its index does to its data. -/
theorem step_of_act {instruction : Instruction} {next : Int} {data : Data}
    (running : machine.engine.finished = false) (ready : machine.data.Ready)
    (found : machine.engine.program.at? machine.engine.ip = some instruction)
    (acts : machine.data.act machine.engine.ip instruction = some (next, data)) :
    machine.step = (.ok (machine.goTo next data).engine.status, machine.goTo next data) := by
  cases instruction with
  | move delta =>
    simp only [Data.act] at acts
    split at acts
    · cases acts
    · next bound =>
      cases acts
      apply step_of_silent _ running
      simp only [Engine.react, found, move_eq bound]
      rfl
  | adjust delta =>
    cases acts
    apply step_of_silent _ running
    simp only [Engine.react, found, adjust_eq ready]
    rfl
  | output =>
    cases acts
    have cell : machine.engine.cell = .ok machine.data.cell := ready.get
    have reaction : machine.engine.react = .ok (.write machine.data.cell fun left =>
        { left with ip := machine.engine.ip }.proceed (machine.engine.ip + 1)) := by
      simp only [Engine.react, found, cell]
      rfl
    rw [step_of_write running reaction]
    rfl
  | input =>
    cases acts
    have streams : machine.data.receive.streams = machine.streams.read.2 := by
      unfold Data.receive
      split <;> next taken => exact (congrArg Prod.snd taken).symm
    have reaction : machine.engine.react = .ok (.read fun left =>
        { left with ip := machine.engine.ip }.receive) := by
      simp only [Engine.react, found]
    have stepped := step_of_read _ running reaction (receive_eq ready)
    rw [stepped, ← streams]
    rfl
  | jumpIfZero target =>
    cases acts
    apply step_of_silent _ running
    simp only [Engine.react, found, jump_eq ready, beq_iff_eq]
    rfl
  | jumpIfNonzero target =>
    cases acts
    apply step_of_silent _ running
    simp only [Engine.react, found, jump_eq ready, bne_iff_ne, ite_not]
    rfl
  | breakpoint =>
    cases acts
    apply step_of_silent _ running
    simp only [Engine.react, found]
    rfl
  | foreign text => cases acts

/-- A move to the left of cell 0 ends the run and leaves the data as they are. -/
theorem step_of_underflow {delta : Int} (running : machine.engine.finished = false)
    (found : machine.engine.program.at? machine.engine.ip = some (.move delta))
    (below : machine.engine.pointer + delta < 0) :
    machine.step = (.ok (.failed ⟨machine.engine.ip, machine.engine.pointer⟩),
      { machine with engine := machine.engine.fail }) := by
  have moved : machine.engine.move delta = machine.engine.fail := if_pos below
  have stepped := step_of_silent (machine.engine.move delta) running
    (by simp only [Engine.react, found])
  rw [stepped, moved]
  rfl

end Machine
end Brainfuck
