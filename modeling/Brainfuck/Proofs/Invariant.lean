import Mathlib.Data.List.Permutation
import Brainfuck.Build
import Brainfuck.Proofs.Standing

/-! The invariant of the engine. Each call of `step` leaves a machine that has finished as it
is, or executes the instruction before which the machine stands, or fails there. What holds
after any number of calls follows from that. -/

namespace Brainfuck

def Status.isFailed : Status → Bool
  | failed _ => true
  | running | halted | pausedAtBreakpoint _ | pausedForStep _ => false

theorem Status.isFailed_eq_false {status : Status}
    (unfailed : ∀ underflow, status ≠ .failed underflow) : status.isFailed = false := by
  cases status with
  | failed underflow => exact absurd rfl (unfailed underflow)
  | _ => rfl

namespace Machine

/-- The machine that a call of `step` leaves. -/
def stepped (machine : Machine) : Machine := (machine.step).2

/-- The machine after a number of calls of `step`. -/
def afterCalls (start : Machine) : Nat → Machine
  | 0 => start
  | count + 1 => (start.afterCalls count).stepped

theorem stepped_of_finished {machine : Machine} (finished : machine.engine.finished = true) :
    machine.stepped = machine :=
  congrArg Prod.snd (step_of_finished finished)

theorem afterCalls_of_finished {start : Machine} {first last : Nat}
    (finished : (start.afterCalls first).engine.finished = true)
    (less : first ≤ last) : start.afterCalls last = start.afterCalls first := by
  induction less with
  | refl => rfl
  | step _ ih => rw [afterCalls, ih, stepped_of_finished finished]

/-- A call of `step` attempts an instruction. -/
def attempts (machine : Machine) : Bool := !machine.engine.finished

/-- A call of `step` executes an instruction and does not fail. -/
def executes (machine : Machine) : Bool :=
  machine.attempts && !machine.stepped.engine.status.isFailed

/-- What holds of a machine that executes a program after a number of calls of `step`. -/
structure Invariant (start : Machine) (program : Program) (count : Nat) : Prop where
  /-- One more call returns the status, and no fault. -/
  returns : (start.afterCalls count).step =
    (.ok (start.afterCalls (count + 1)).engine.status, start.afterCalls (count + 1))
  ip_nonneg : 0 ≤ (start.afterCalls count).engine.ip
  ip_le : (start.afterCalls count).engine.ip ≤ program.size
  pointer_nonneg : 0 ≤ (start.afterCalls count).engine.pointer
  cells : ∀ address, ((start.afterCalls count).engine.tape.read address).toNat ≤ 255
  output : ∀ value ∈ (start.afterCalls count).streams.output, value.toNat ≤ 255
  halted : (start.afterCalls count).engine.status = .halted ↔
    (start.afterCalls count).engine.ip = program.size
  unhalted : ((start.afterCalls count).engine.status = .running ∨
      ∃ underflow, (start.afterCalls count).engine.status = .failed underflow) ↔
    (start.afterCalls count).engine.ip < program.size
  steps : (start.afterCalls count).engine.steps =
    (List.range count).countP fun earlier => (start.afterCalls earlier).executes
  lastIndex_none : (start.afterCalls count).engine.lastIndex = none ↔
    ∀ earlier < count, (start.afterCalls earlier).attempts = false
  lastIndex_empty : program.size = 0 → (start.afterCalls count).engine.lastIndex = none
  lastIndex_some : ∀ index, (start.afterCalls count).engine.lastIndex = some index →
    0 ≤ index ∧ index < program.size
  /-- The mark `high` is the greatest pointer so far. -/
  high_ge : ∀ earlier ≤ count,
    (start.afterCalls earlier).engine.pointer ≤ (start.afterCalls count).engine.tape.high
  high_reached : ∃ earlier ≤ count,
    (start.afterCalls earlier).engine.pointer = (start.afterCalls count).engine.tape.high
  cleared : ∀ address, (start.afterCalls count).engine.tape.high < address →
    (start.afterCalls count).engine.tape.read address = 0

namespace Data

variable {data reached : Data} {instruction : Instruction} {ip next : Int}

/-- What an instruction does to the tape and the pointer. -/
inductive Change (data : Data) : Data → Prop where
  | none (streams : Streams) : Change data { data with streams }
  | stored (streams : Streams) (value : UInt8) : Change data ({ data with streams }.write value)
  | moved (delta : Int) (onTape : 0 ≤ data.pointer + delta) :
      Change data { data with
        pointer := data.pointer + delta
        tape := data.tape.touch (data.pointer + delta) }

theorem receive_change (data : Data) : data.Change data.receive := by
  unfold receive
  split
  · exact .none _
  · exact .stored _ _

theorem act_change (acts : data.act ip instruction = some (next, reached)) :
    data.Change reached := by
  cases instruction with
  | move delta =>
    simp only [act] at acts
    split at acts
    · cases acts
    · next bound =>
      cases acts
      exact .moved delta (by simpa using bound)
  | adjust delta => cases acts; exact .stored data.streams _
  | output => cases acts; exact .none _
  | input => cases acts; exact receive_change data
  | jumpIfZero target => cases acts; exact .none data.streams
  | jumpIfNonzero target => cases acts; exact .none data.streams
  | breakpoint => cases acts; exact .none data.streams
  | foreign text => cases acts

/-- The mark `high` is not below the pointer, and the cells above it are zero. -/
structure Bounded (data : Data) : Prop where
  onTape : 0 ≤ data.pointer
  pointer_le : data.pointer ≤ data.tape.high
  cleared : ∀ address, data.tape.high < address → data.tape.read address = 0

theorem Change.high_eq (change : data.Change reached) (bounded : data.Bounded) :
    (reached.tape.high : Int) = max (data.tape.high : Int) reached.pointer := by
  have onTape := bounded.onTape
  have bound := bounded.pointer_le
  cases change with
  | none streams => exact (Int.max_eq_left bound).symm
  | stored streams value =>
    change ((max data.tape.high data.pointer.toNat : Nat) : Int) = max _ data.pointer
    omega
  | moved delta onTape =>
    change ((max data.tape.high (data.pointer + delta).toNat : Nat) : Int) =
      max _ (data.pointer + delta)
    omega

theorem Change.bounded (change : data.Change reached) (bounded : data.Bounded) :
    reached.Bounded := by
  have high := change.high_eq bounded
  have onTape := bounded.onTape
  have bound := bounded.pointer_le
  cases change with
  | none streams => exact ⟨bounded.onTape, bounded.pointer_le, bounded.cleared⟩
  | stored streams value =>
    refine ⟨bounded.onTape, by omega, ?_⟩
    intro address above
    have other : data.pointer.toNat ≠ address := by
      change data.pointer ≤ _ at bound
      omega
    change ((data.tape.store data.pointer.toNat value).touch data.pointer).read address = 0
    rw [Tape.read_touch, Tape.read_store, if_neg other]
    apply bounded.cleared
    omega
  | moved delta onTape =>
    refine ⟨onTape, by omega, ?_⟩
    intro address above
    apply bounded.cleared
    omega

end Data

variable {code : List Instruction} {block : Block} {ip : Nat} {data : Data}
  {start machine reached : Machine}

/-- The machine stands in a code, or it failed there. -/
inductive Placed (code : List Instruction) : Machine → Prop where
  | stands {machine : Machine} {ip : Nat} {data : Data} (stands : machine.At code ip data) :
      Placed code machine
  | failed {machine : Machine} {ip : Nat} {data : Data} (stood : machine.At code ip data)
      (inside : ip < code.length) : Placed code machine.failed

/-- What a call of `step` does to a machine in a code. -/
inductive Turn (code : List Instruction) : Machine → Machine → Prop where
  | rested {machine : Machine} (placed : machine.Placed code)
      (finished : machine.engine.finished = true) : Turn code machine machine
  | executed {machine : Machine} {ip next : Nat} {data changed : Data}
      (stands : machine.At code ip data) (inside : ip < code.length)
      (change : machine.data.Change changed)
      (stands' : (machine.goTo next changed).At code next changed) :
      Turn code machine (machine.goTo next changed)
  | failed {machine : Machine} {ip : Nat} {data : Data} (stands : machine.At code ip data)
      (inside : ip < code.length) : Turn code machine machine.failed

theorem Turn.placed (turn : Turn code machine reached) : reached.Placed code := by
  cases turn with
  | rested placed _ => exact placed
  | executed _ _ _ stands' => exact .stands stands'
  | failed stands inside => exact .failed stands inside

/-- No call faults in the layout of a block, and each is a turn. -/
theorem Placed.step (placed : machine.Placed (block.instructions 0)) :
    machine.step = (.ok machine.stepped.engine.status, machine.stepped) ∧
      Turn (block.instructions 0) machine machine.stepped := by
  have returns : ∃ reached, machine.step = (.ok reached.engine.status, reached) ∧
      Turn (block.instructions 0) machine reached := by
    cases finished : machine.engine.finished with
    | true => exact ⟨machine, step_of_finished finished, .rested placed finished⟩
    | false =>
      cases placed with
      | failed => cases finished
      | @stands _ ip data stands =>
        have inside := stands.inside finished
        obtain ⟨instruction, found, valid⟩ := block.fits_instructions.valid (Nat.zero_le ip)
          (by simpa using inside)
        cases acts : data.act ip instruction with
        | none =>
          obtain ⟨delta, rfl, below⟩ := act_eq_none valid acts
          have status : machine.failed.engine.status = .failed ⟨ip, data.pointer⟩ := by
            change Status.failed ⟨machine.engine.ip, machine.data.pointer⟩ = _
            rw [stands.ip_eq, stands.data_eq]
          exact ⟨_, status ▸ stands.underflow found below, .failed stands inside⟩
        | some outcome =>
          obtain ⟨place, changed⟩ := outcome
          obtain ⟨next, rfl, within⟩ := act_within valid inside acts
          obtain ⟨step, stands'⟩ := stands.step next found acts within
          have change : machine.data.Change changed := stands.data_eq ▸ Data.act_change acts
          exact ⟨_, step, .executed stands inside change stands'⟩
  obtain ⟨reached, step, turn⟩ := returns
  have same : machine.stepped = reached := congrArg Prod.snd step
  rw [same]
  exact ⟨step, turn⟩

namespace Turn

theorem bounded (turn : Turn code machine reached) (before : machine.data.Bounded) :
    reached.data.Bounded := by
  cases turn with
  | rested => exact before
  | executed _ _ change _ => exact change.bounded before
  | failed => exact before

theorem high_eq (turn : Turn code machine reached) (before : machine.data.Bounded) :
    (reached.engine.tape.high : Int) =
      max (machine.engine.tape.high : Int) reached.engine.pointer := by
  cases turn with
  | rested => exact (Int.max_eq_left before.pointer_le).symm
  | executed _ _ change _ => exact change.high_eq before
  | failed => exact (Int.max_eq_left before.pointer_le).symm

theorem lastIndex_eq (turn : Turn code machine reached) :
    reached.engine.lastIndex =
      if machine.attempts then some machine.engine.ip else machine.engine.lastIndex := by
  cases turn with
  | rested _ finished => simp [attempts, finished]
  | executed stands inside _ _ => simp [attempts, stands.running inside, goTo, Engine.proceed]
  | failed stands inside => simp [attempts, stands.running inside, Machine.failed, Engine.fail]

theorem ip_inside (turn : Turn code machine reached) (attempted : machine.attempts = true) :
    0 ≤ machine.engine.ip ∧ machine.engine.ip < code.length := by
  cases turn with
  | rested _ finished => simp [attempts, finished] at attempted
  | executed stands inside _ _ =>
    rw [stands.ip_eq]
    omega
  | failed stands inside =>
    rw [stands.ip_eq]
    omega

theorem steps_eq (turn : Turn code machine machine.stepped) :
    machine.stepped.engine.steps = machine.engine.steps + if machine.executes then 1 else 0 := by
  unfold executes
  generalize machine.stepped = reached at turn ⊢
  cases turn with
  | rested _ finished => simp [attempts, finished]
  | @executed ip next data changed stands inside _ stands' =>
    have unfailed : (machine.goTo next changed).engine.status.isFailed = false := by
      rw [stands'.status]
      split <;> rfl
    rw [unfailed, attempts, stands.running inside]
    rfl
  | failed stands inside =>
    have failed : machine.failed.engine.status.isFailed = true := rfl
    rw [failed]
    simp [Machine.failed, Engine.fail]

end Turn

namespace Placed

theorem ip_within (placed : machine.Placed code) :
    0 ≤ machine.engine.ip ∧ machine.engine.ip ≤ code.length := by
  cases placed with
  | stands stands =>
    have within := stands.within
    rw [stands.ip_eq]
    omega
  | @failed before _ _ stood inside =>
    have place : before.failed.engine.ip = before.engine.ip := rfl
    rw [place, stood.ip_eq]
    omega

theorem status_cases (placed : machine.Placed code) :
    (machine.engine.ip = code.length ∧ machine.engine.status = .halted) ∨
      machine.engine.ip < code.length ∧ (machine.engine.status = .running ∨
        ∃ underflow, machine.engine.status = .failed underflow) := by
  cases placed with
  | @stands _ ip _ stands =>
    have within := stands.within
    rw [stands.ip_eq, stands.status]
    by_cases inside : ip < code.length
    · exact .inr ⟨by omega, .inl (if_pos inside)⟩
    · exact .inl ⟨by omega, if_neg inside⟩
  | @failed before _ _ stood inside =>
    have place : before.failed.engine.ip = before.engine.ip := rfl
    rw [place, stood.ip_eq]
    exact .inr ⟨by omega, .inr ⟨_, rfl⟩⟩

theorem not_isPause (placed : machine.Placed code) : machine.engine.status.isPause = false := by
  rcases placed.status_cases with ⟨-, status⟩ | ⟨-, status | ⟨underflow, status⟩⟩ <;>
    rw [status] <;> rfl

theorem halted_iff (placed : machine.Placed code) :
    machine.engine.status = .halted ↔ machine.engine.ip = code.length := by
  rcases placed.status_cases with ⟨place, status⟩ | ⟨inside, status | ⟨underflow, status⟩⟩
  · simp [place, status]
  · simp [status, Int.ne_of_lt inside]
  · simp [status, Int.ne_of_lt inside]

theorem unhalted_iff (placed : machine.Placed code) :
    (machine.engine.status = .running ∨ ∃ underflow, machine.engine.status = .failed underflow) ↔
      machine.engine.ip < code.length := by
  rcases placed.status_cases with ⟨place, status⟩ | ⟨inside, status⟩
  · simp [place, status]
  · exact iff_of_true status inside

end Placed

/-- The machine has a code before it, and nothing has been executed yet. -/
structure Begins (code : List Instruction) (start : Machine) : Prop where
  placed : start.Placed code
  bounded : start.data.Bounded
  steps : start.engine.steps = 0
  lastIndex : start.engine.lastIndex = none
  high : start.engine.pointer = start.engine.tape.high

theorem Begins.load (program : Program) (input : List (Option Int)) (size : Int) :
    (Machine.load program input (Tape.blank size)).Begins program.instructions.toList where
  placed := .stands (At.load program input size)
  bounded := ⟨Int.le_refl 0, Int.le_refl 0, fun address _ => Tape.read_blank size address⟩
  steps := rfl
  lastIndex := rfl
  high := rfl

namespace Begins

variable (begins : start.Begins (block.instructions 0)) (count : Nat)
include begins

theorem placed_afterCalls : (start.afterCalls count).Placed (block.instructions 0) := by
  induction count with
  | zero => exact begins.placed
  | succ count ih => exact ih.step.2.placed

theorem turn_afterCalls : Turn (block.instructions 0) (start.afterCalls count)
    (start.afterCalls (count + 1)) :=
  (begins.placed_afterCalls count).step.2

theorem bounded_afterCalls : (start.afterCalls count).data.Bounded := by
  induction count with
  | zero => exact begins.bounded
  | succ count ih => exact (begins.turn_afterCalls count).bounded ih

theorem steps_afterCalls : (start.afterCalls count).engine.steps =
    (List.range count).countP fun earlier => (start.afterCalls earlier).executes := by
  induction count with
  | zero => exact begins.steps
  | succ count ih =>
    rw [List.range_succ, List.countP_append, List.countP_singleton, ← ih]
    exact (begins.turn_afterCalls count).steps_eq

theorem lastIndex_eq_none_iff : (start.afterCalls count).engine.lastIndex = none ↔
    ∀ earlier < count, (start.afterCalls earlier).attempts = false := by
  induction count with
  | zero => simpa [afterCalls] using begins.lastIndex
  | succ count ih =>
    rw [(begins.turn_afterCalls count).lastIndex_eq, Nat.forall_lt_succ_right, ← ih]
    cases (start.afterCalls count).attempts <;> simp

theorem lastIndex_within : ∀ index, (start.afterCalls count).engine.lastIndex = some index →
    0 ≤ index ∧ index < block.size := by
  induction count with
  | zero =>
    intro index found
    rw [afterCalls, begins.lastIndex] at found
    cases found
  | succ count ih =>
    intro index found
    have turn := begins.turn_afterCalls count
    rw [turn.lastIndex_eq] at found
    split at found
    · next attempted =>
      cases found
      simpa using turn.ip_inside attempted
    · exact ih index found

theorem high_succ : ((start.afterCalls (count + 1)).engine.tape.high : Int) =
    max ((start.afterCalls count).engine.tape.high : Int)
      (start.afterCalls (count + 1)).engine.pointer :=
  (begins.turn_afterCalls count).high_eq (begins.bounded_afterCalls count)

theorem pointer_le_high : ∀ earlier ≤ count,
    (start.afterCalls earlier).engine.pointer ≤ (start.afterCalls count).engine.tape.high := by
  induction count with
  | zero =>
    intro earlier bound
    cases Nat.le_zero.mp bound
    exact begins.bounded.pointer_le
  | succ count ih =>
    intro earlier bound
    rw [begins.high_succ]
    rcases Nat.le_succ_iff.mp bound with before | rfl
    · exact Int.le_trans (ih earlier before) (Int.le_max_left _ _)
    · exact Int.le_max_right _ _

theorem exists_pointer_eq_high : ∃ earlier ≤ count,
    (start.afterCalls earlier).engine.pointer = (start.afterCalls count).engine.tape.high := by
  induction count with
  | zero => exact ⟨0, Nat.le_refl 0, begins.high⟩
  | succ count ih =>
    have high := begins.high_succ count
    rcases Int.le_total (start.afterCalls (count + 1)).engine.pointer
      (start.afterCalls count).engine.tape.high with below | above
    · obtain ⟨earlier, bound, same⟩ := ih
      rw [Int.max_eq_left below] at high
      exact ⟨earlier, by omega, same.trans high.symm⟩
    · rw [Int.max_eq_right above] at high
      exact ⟨count + 1, Nat.le_refl _, high.symm⟩

theorem invariant {program : Program} (size : program.size = block.size) :
    start.Invariant program count := by
  have placed := begins.placed_afterCalls count
  have bounded := begins.bounded_afterCalls count
  have within := begins.lastIndex_within count
  have ip := placed.ip_within
  have halted := placed.halted_iff
  have unhalted := placed.unhalted_iff
  rw [Block.length_instructions, ← size] at ip halted unhalted
  rw [← size] at within
  have empty : program.size = 0 → (start.afterCalls count).engine.lastIndex = none := by
    intro none
    apply Option.eq_none_iff_forall_ne_some.mpr
    intro index found
    have inside := within index found
    omega
  exact {
    returns := placed.step.1
    ip_nonneg := ip.1
    ip_le := ip.2
    pointer_nonneg := bounded.onTape
    cells := fun address => Nat.le_of_lt_succ (UInt8.toNat_lt _)
    output := fun value _ => Nat.le_of_lt_succ (UInt8.toNat_lt value)
    halted := halted
    unhalted := unhalted
    steps := begins.steps_afterCalls count
    lastIndex_none := begins.lastIndex_eq_none_iff count
    lastIndex_empty := empty
    lastIndex_some := within
    high_ge := begins.pointer_le_high count
    high_reached := begins.exists_pointer_eq_high count
    cleared := bounded.cleared }

end Begins
end Machine

variable {source : String} {program : Program}

/-- The invariant holds of every program that is built, on a tape of any size and with any
input, after any number of calls. -/
theorem build_invariant (built : build source = .ok program) (size : Int)
    (input : List (Option Int)) (count : Nat) :
    (Machine.load program input (Tape.blank size)).Invariant program count := by
  obtain ⟨tokens, -, made⟩ := build_eq_ok_iff.mp built
  obtain ⟨block, -, rfl⟩ := Program.ofTokens_eq_ok_iff.mp made
  have begins := Machine.Begins.load (Program.ofBlock block tokens source) input size
  exact begins.invariant count (by simp [Program.ofBlock, Program.size])

/-- A program that reads, loops, stops at a breakpoint and moves to the left of cell 0. -/
theorem build_invariant_underflow :
    ∃ program, build "+[>,.[-]<-]#<" = .ok program ∧
      ∀ (size : Int) (input : List (Option Int)) (count : Nat),
        (Machine.load program input (Tape.blank size)).Invariant program count := by
  have done : preprocess "+[>,.[-]<-]#<" =
      .ok [.ofSymbol .increment 0, .ofSymbol .loopStart 1, .ofSymbol .right 2,
        .ofSymbol .input 3, .ofSymbol .output 4, .ofSymbol .loopStart 5, .ofSymbol .decrement 6,
        .ofSymbol .loopEnd 7, .ofSymbol .left 8, .ofSymbol .decrement 9, .ofSymbol .loopEnd 10,
        .ofSymbol .breakpoint 11, .ofSymbol .left 12] := by cbv
  have built := build_eq_ok_iff.mpr ⟨_, done, rfl⟩
  exact ⟨_, built, fun size input count => build_invariant built size input count⟩

end Brainfuck
