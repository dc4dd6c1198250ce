import Brainfuck.Proofs.Layout
import Brainfuck.Proofs.Runs

namespace Brainfuck

/-- An instruction of a code of a length; a jump has its partner in the code. -/
def Instruction.Valid (length : Nat) : Instruction → Prop
  | jumpIfZero target | jumpIfNonzero target => ∃ partner : Nat, target = partner ∧ partner < length
  | foreign _ => False
  | move _ | adjust _ | output | input | breakpoint => True

theorem Primitive.valid (first : Primitive) (length : Nat) : first.instruction.Valid length := by
  cases first <;> trivial

theorem Block.Fits.valid {code : List Instruction} {block : Block} {base ip : Nat}
    (fits : Fits code base block) (above : base ≤ ip) (below : ip < base + block.size) :
    ∃ instruction, code[ip]? = some instruction ∧ instruction.Valid code.length := by
  induction block generalizing base with
  | empty => simp only [size] at below; omega
  | primitive first rest ih =>
    obtain ⟨found, fits⟩ := fits
    by_cases here : ip = base
    · exact ⟨first.instruction, here ▸ found, first.valid _⟩
    · exact ih fits (by omega) (by simp only [size] at below; omega)
  | loop body rest ihBody ihRest =>
    obtain ⟨opening, inner, closing, outer⟩ := fits
    obtain ⟨inside, -⟩ := List.getElem?_eq_some_iff.mp opening
    obtain ⟨inside', -⟩ := List.getElem?_eq_some_iff.mp closing
    by_cases atStart : ip = base
    · exact ⟨.jumpIfZero _, atStart ▸ opening, _, rfl, inside'⟩
    · by_cases atEnd : ip = base + body.size + 1
      · exact ⟨.jumpIfNonzero _, atEnd ▸ closing, _, rfl, inside⟩
      · by_cases within : ip < base + body.size + 1
        · exact ihBody inner (by omega) (by omega)
        · exact ihRest outer (by omega) (by simp only [size] at below; omega)

namespace Machine

/-- The machine stands before the instruction at an index of a code, or behind the
last one, with data that it can work on. -/
structure At (code : List Instruction) (ip : Nat) (data : Data) (machine : Machine) : Prop where
  code_eq : machine.engine.program.instructions.toList = code
  ip_eq : machine.engine.ip = ip
  within : ip ≤ code.length
  data_eq : machine.data = data
  ready : data.Ready
  status : machine.engine.status = if ip < code.length then .running else .halted

variable {code : List Instruction} {ip : Nat} {data after : Data} {machine : Machine}
  {instruction : Instruction}

theorem At.finished_iff (stands : machine.At code ip data) :
    machine.engine.finished = true ↔ ip = code.length := by
  have bound := stands.within
  rw [Engine.finished, stands.status]
  split
  · constructor
    · intro final; cases final
    · intro same; omega
  · constructor
    · intro; omega
    · intro; rfl

theorem At.running (stands : machine.At code ip data) (before : ip < code.length) :
    machine.engine.finished = false := by
  cases finished : machine.engine.finished with
  | false => rfl
  | true =>
    have done := stands.finished_iff.mp finished
    omega

theorem At.inside (stands : machine.At code ip data) (running : machine.engine.finished = false) :
    ip < code.length := by
  have bound := stands.within
  have unfinished := mt stands.finished_iff.mpr (by simp [running])
  omega

theorem At.fetch (stands : machine.At code ip data) (found : code[ip]? = some instruction) :
    machine.engine.program.at? machine.engine.ip = some instruction := by
  obtain ⟨inside, -⟩ := List.getElem?_eq_some_iff.mp found
  rw [← stands.code_eq] at found inside
  rw [Program.at?, stands.ip_eq, place?_natCast, Program.size,
    if_pos (by simpa using inside), Option.bind_some]
  simpa using found

theorem At.step (stands : machine.At code ip data) (next : Nat)
    (found : code[ip]? = some instruction)
    (acts : data.act ip instruction = some ((next : Int), after)) (within : next ≤ code.length) :
    machine.step = (.ok (machine.goTo next after).engine.status, machine.goTo next after) ∧
      (machine.goTo next after).At code next after := by
  obtain ⟨inside, -⟩ := List.getElem?_eq_some_iff.mp found
  have running := stands.running inside
  have acts' := acts
  rw [← stands.data_eq, ← stands.ip_eq] at acts'
  refine ⟨step_of_act running (stands.data_eq ▸ stands.ready) (stands.fetch found) acts', ?_⟩
  refine ⟨stands.code_eq, rfl, within, rfl, stands.ready.act acts, ?_⟩
  have size : machine.engine.program.size = code.length := by
    rw [← stands.code_eq, Array.length_toList]; rfl
  have status : machine.engine.status = .running := by rw [stands.status, if_pos inside]
  change (if (machine.engine.program.size : Int) ≤ next then Status.halted
    else machine.engine.status) = _
  rw [size, status]
  by_cases before : next < code.length
  · rw [if_pos before, if_neg (by omega)]
  · rw [if_neg before, if_pos (by omega)]

/-- The machine after a move to the left of cell 0. -/
def failed (machine : Machine) : Machine := { machine with engine := machine.engine.fail }

theorem At.underflow {delta : Int} (stands : machine.At code ip data)
    (found : code[ip]? = some (.move delta)) (below : data.pointer + delta < 0) :
    machine.step = (.ok (.failed ⟨ip, data.pointer⟩), machine.failed) := by
  obtain ⟨inside, -⟩ := List.getElem?_eq_some_iff.mp found
  have pointer : machine.engine.pointer = data.pointer := congrArg Data.pointer stands.data_eq
  rw [step_of_underflow (stands.running inside) (stands.fetch found) (by rwa [pointer]),
    stands.ip_eq, pointer]
  rfl

theorem act_eq_none (valid : instruction.Valid code.length) {place : Int}
    (stuck : data.act place instruction = none) :
    ∃ delta, instruction = .move delta ∧ data.pointer + delta < 0 := by
  cases instruction with
  | move delta =>
    simp only [Data.act] at stuck
    split at stuck
    · next below => exact ⟨delta, rfl, below⟩
    · cases stuck
  | foreign text => exact valid.elim
  | _ => cases stuck

theorem act_within (valid : instruction.Valid code.length) (inside : ip < code.length)
    {place : Int} (acts : data.act ip instruction = some (place, after)) :
    ∃ next : Nat, place = next ∧ next ≤ code.length := by
  have following : ∃ next : Nat, (ip + 1 : Int) = next ∧ next ≤ code.length :=
    ⟨ip + 1, by simp, inside⟩
  cases instruction with
  | move delta =>
    simp only [Data.act] at acts
    split at acts
    · cases acts
    · cases acts; exact following
  | jumpIfZero target =>
    obtain ⟨partner, rfl, bound⟩ := valid
    cases acts
    split
    · exact ⟨partner + 1, by simp, bound⟩
    · exact following
  | jumpIfNonzero target =>
    obtain ⟨partner, rfl, bound⟩ := valid
    cases acts
    split
    · exact following
    · exact ⟨partner + 1, by simp, bound⟩
  | foreign text => exact valid.elim
  | _ => cases acts; exact following

theorem At.load (program : Program) (input : List (Option Int)) (size : Int) :
    (Machine.load program input (Tape.blank size)).At program.instructions.toList 0
      ⟨Tape.blank size, 0, { input }⟩ := by
  refine ⟨rfl, rfl, Nat.zero_le _, rfl, ⟨Int.le_refl 0, rfl⟩, ?_⟩
  change (if program.instructions.size = 0 then Status.halted else Status.running) = _
  rw [Array.length_toList]
  by_cases before : 0 < program.instructions.size
  · rw [if_pos before, if_neg (by omega)]
  · rw [if_neg before, if_pos (by omega)]

/-- The machine stands in the layout of a block, or it has failed. -/
def Sound (block : Block) (machine : Machine) : Prop :=
  (∃ ip data, machine.At (block.instructions 0) ip data) ∨
    ∃ underflow, machine.engine.status = .failed underflow

variable {block : Block}

/-- No step of a sound machine faults, and each leads to a sound machine. -/
theorem Sound.step (sound : machine.Sound block) :
    ∃ status stepped, machine.step = (.ok status, stepped) ∧ stepped.Sound block := by
  cases finished : machine.engine.finished with
  | true => exact ⟨_, machine, step_of_finished finished, sound⟩
  | false =>
    rcases sound with ⟨ip, data, stands⟩ | ⟨underflow, status⟩
    · have inside := stands.inside finished
      obtain ⟨instruction, found, valid⟩ := block.fits_instructions.valid (Nat.zero_le ip)
        (by simpa using inside)
      cases acts : data.act ip instruction with
      | none =>
        obtain ⟨delta, rfl, below⟩ := act_eq_none valid acts
        exact ⟨_, _, stands.underflow found below, .inr ⟨_, rfl⟩⟩
      | some reached =>
        obtain ⟨place, after⟩ := reached
        obtain ⟨next, rfl, within⟩ := act_within valid inside acts
        obtain ⟨stepped, stands'⟩ := stands.step next found acts within
        exact ⟨_, _, stepped, .inl ⟨next, after, stands'⟩⟩
    · rw [Engine.finished, status] at finished
      cases finished

theorem Sound.run (sound : machine.Sound block) (fuel : Nat) :
    ∃ ended final, Machine.run fuel machine = (.ok ended, final) := by
  induction fuel generalizing machine with
  | zero => exact ⟨_, machine, rfl⟩
  | succ fuel ih =>
    cases finished : machine.engine.finished with
    | true => exact ⟨true, machine, run_of_finished finished _⟩
    | false =>
      obtain ⟨status, stepped, step, sound'⟩ := sound.step
      obtain ⟨ended, final, ran⟩ := ih sound'
      exact ⟨ended, final, by rw [run_succ finished, bind_apply, step]; exact ran⟩

/-- A sound machine runs for ever unless its run to the end ends. -/
theorem Sound.runsForever_iff (sound : machine.Sound block) :
    machine.RunsForever ↔ ¬ ∃ status final, machine.EndsWith status final := by
  constructor
  · intro forever ending
    obtain ⟨status, final, fuel, ended⟩ := ending
    obtain ⟨after, running⟩ := forever fuel
    rw [running] at ended
    cases ended
  · intro never fuel
    obtain ⟨ended, final, ran⟩ := sound.run fuel
    cases ended with
    | false => exact ⟨final, runToEnd_eq_none_iff.mpr ran⟩
    | true =>
      exact absurd ⟨_, final, fuel, runToEnd_eq_some_iff.mpr ⟨ran, rfl⟩⟩ never

end Machine
end Brainfuck
