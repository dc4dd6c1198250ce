import Brainfuck.Engine

namespace Brainfuck

/-- Results that are related, or the same fault. Where memory is limited one of them may be
missing, whatever the other is. -/
inductive SameOutcome {Result Result' : Type} (room : Option Nat)
    (related : Result → Result' → Prop) : Except Fault Result → Except Fault Result' → Prop where
  | ok {first : Result} {second : Result'} (both : related first second) :
      SameOutcome room related (.ok first) (.ok second)
  | error (fault : Fault) : SameOutcome room related (.error fault) (.error fault)
  | noFirst (limited : room ≠ none) (fault : Fault) (second : Except Fault Result') :
      SameOutcome room related (.error fault) second
  | noSecond (limited : room ≠ none) (fault : Fault) (first : Except Fault Result) :
      SameOutcome room related first (.error fault)

variable {room : Option Nat}

theorem SameOutcome.bind {First First' Second Second' : Type} {related : First → First' → Prop}
    {related' : Second → Second' → Prop} {first : Except Fault First}
    {first' : Except Fault First'} {next : First → Except Fault Second}
    {next' : First' → Except Fault Second'} (begun : SameOutcome room related first first')
    (later : ∀ value value', related value value' →
      SameOutcome room related' (next value) (next' value')) :
    SameOutcome room related' (first >>= next) (first' >>= next') := by
  cases begun with
  | ok both => exact later _ _ both
  | error fault => exact .error fault
  | noFirst limited fault => exact .noFirst limited fault _
  | noSecond limited fault => exact .noSecond limited fault _

namespace Tape

variable {first second : Tape}

/-- Tapes in the same memory that were touched as far and read the same, whatever is set aside. -/
structure Alike (room : Option Nat) (first second : Tape) : Prop where
  read : ∀ address : Nat, first.read address = second.read address
  high : first.high = second.high
  within : first.room = room
  within' : second.room = room

theorem alike_blank (room : Option Nat) (size other : Int) :
    Alike room { blank size with room } { blank other with room } where
  read address := (read_blank size address).trans (read_blank other address).symm
  high := rfl
  within := rfl
  within' := rfl

namespace Alike

theorem touch (alike : Alike room first second) (address : Int) :
    Alike room (first.touch address) (second.touch address) where
  read := alike.read
  high := congrArg (max · address.toNat) alike.high
  within := alike.within
  within' := alike.within'

theorem store (alike : Alike room first second) (address : Nat) (value : UInt8) :
    Alike room (first.store address value) (second.store address value) where
  read other := by rw [read_store, read_store, alike.read]
  high := alike.high
  within := alike.within
  within' := alike.within'

theorem get_eq (alike : Alike room first second) {address : Int} (nonneg : 0 ≤ address) :
    first.get address = second.get address := by
  obtain ⟨address, rfl⟩ := Int.eq_ofNat_of_zero_le nonneg
  rw [get_natCast, get_natCast, alike.read]

theorem window_eq (alike : Alike room first second) (center radius : Int) :
    first.window center radius = second.window center radius := by
  have same : first.read = second.read := funext alike.read
  simp only [window, same]

/-- Whether there is room for a cell may depend on what is set aside already. -/
theorem checkFits (alike : Alike room first second) (address : Nat) :
    SameOutcome room Eq (first.checkFits address) (second.checkFits address) := by
  by_cases limited : room = none
  · rw [checkFits_of_room_eq_none (alike.within.trans limited),
      checkFits_of_room_eq_none (alike.within'.trans limited)]
    exact .ok rfl
  · cases first.checkFits address with
    | error fault => exact .noFirst limited fault _
    | ok =>
      cases second.checkFits address with
      | error fault => exact .noSecond limited fault _
      | ok => exact .ok rfl

theorem put (alike : Alike room first second) {address : Int} (nonneg : 0 ≤ address)
    (value : UInt8) : SameOutcome room (Alike room) (first.put address value)
      (second.put address value) := by
  obtain ⟨address, rfl⟩ := Int.eq_ofNat_of_zero_le nonneg
  exact (alike.checkFits address).bind fun _ _ _ => .ok ((alike.store address value).touch address)

theorem add (alike : Alike room first second) {address : Int} (nonneg : 0 ≤ address)
    (delta : Int) :
    SameOutcome room (fun sum sum' => sum.1 = sum'.1 ∧ Alike room sum.2 sum'.2)
      (first.add address delta) (second.add address delta) := by
  have same : SameOutcome room Eq (first.get address) (second.get address) := by
    rw [alike.get_eq nonneg]
    cases second.get address with
    | error fault => exact .error fault
    | ok value => exact .ok rfl
  refine same.bind fun value value' same => ?_
  cases same
  exact (alike.put nonneg _).bind fun _ _ stored => .ok ⟨rfl, stored⟩

end Alike
end Tape

namespace Engine

/-- Engines that differ by the number of cells that are set aside, and by nothing else. -/
inductive Alike (room : Option Nat) (engine : Engine) : Engine → Prop where
  | intro {tape : Tape} (alike : engine.tape.Alike room tape) (nonneg : 0 ≤ engine.pointer) :
      Alike room engine { engine with tape }

/-- Reactions that lead to engines that are alike, in the same way. -/
inductive Reaction.Alike (room : Option Nat) : Reaction → Reaction → Prop where
  | silent {next next' : Engine} (alike : next.Alike room next') :
      Alike room (.silent next) (.silent next')
  | write (value : UInt8) {next next' : Engine → Engine}
      (outcome : ∀ left left' : Engine, left.Alike room left' →
        (next left).Alike room (next' left')) :
      Alike room (.write value next) (.write value next')
  | read {next next' : Engine → Option Int → Except Fault Engine}
      (outcome : ∀ left left' : Engine, left.Alike room left' → ∀ value,
        SameOutcome room (Engine.Alike room) (next left value) (next' left' value)) :
      Alike room (.read next) (.read next')

namespace Alike

variable {first second : Engine}

theorem cell_eq (alike : first.Alike room second) : first.cell = second.cell := by
  obtain ⟨alike, nonneg⟩ := alike
  exact alike.get_eq nonneg

theorem withIndex (alike : first.Alike room second) (ip : Int) :
    Alike room { first with ip } { second with ip } := by
  obtain ⟨alike, nonneg⟩ := alike
  exact .intro alike nonneg

theorem proceed (alike : first.Alike room second) (next : Int) :
    (first.proceed next).Alike room (second.proceed next) := by
  obtain ⟨alike, nonneg⟩ := alike
  exact .intro alike nonneg

theorem move (alike : first.Alike room second) (delta : Int) :
    (first.move delta).Alike room (second.move delta) := by
  obtain ⟨alike, nonneg⟩ := alike
  by_cases left : first.pointer + delta < 0
  · rw [Engine.move, Engine.move, if_pos left, if_pos left]
    exact .intro alike nonneg
  · rw [Engine.move, Engine.move, if_neg left, if_neg left]
    exact .intro (alike.touch _) (Int.not_lt.mp left)

theorem receive (alike : first.Alike room second) (value : Option Int) :
    SameOutcome room (Alike room) (first.receive value) (second.receive value) := by
  cases value with
  | none =>
    obtain ⟨alike, nonneg⟩ := alike
    exact .ok (.intro alike nonneg)
  | some value =>
    obtain ⟨alike, nonneg⟩ := alike
    exact (alike.put nonneg (.ofInt value)).bind fun _ _ stored => .ok (.intro stored nonneg)

theorem adjust (alike : first.Alike room second) (delta : Int) :
    SameOutcome room (Alike room) (first.adjust delta) (second.adjust delta) := by
  obtain ⟨alike, nonneg⟩ := alike
  exact (alike.add nonneg delta).bind fun _ _ both => .ok (.intro both.2 nonneg)

theorem jump (alike : first.Alike room second) (target : Int) (test : UInt8 → Bool) :
    SameOutcome room (Alike room) (first.jump target test) (second.jump target test) := by
  rw [Engine.jump, Engine.jump, alike.cell_eq]
  cases second.cell with
  | error fault => exact .error fault
  | ok value =>
    obtain ⟨alike, nonneg⟩ := alike
    exact .ok (.intro alike nonneg)

/-- What an instruction does shows nothing of what is set aside. -/
theorem react (alike : first.Alike room second) :
    SameOutcome room (Reaction.Alike room) first.react second.react := by
  have index : second.ip = first.ip := by
    cases alike
    rfl
  have code : second.program.at? second.ip = first.program.at? first.ip := by
    cases alike
    rfl
  have silently {next next' : Except Fault Engine}
      (outcome : SameOutcome room (Alike room) next next') :
      SameOutcome room (Reaction.Alike room) (.silent <$> next) (.silent <$> next') :=
    outcome.bind fun _ _ both => .ok (.silent both)
  unfold Engine.react
  rw [code]
  cases first.program.at? first.ip with
  | none => exact .error _
  | some instruction =>
    cases instruction with
    | adjust delta => exact silently (alike.adjust delta)
    | move delta => exact .ok (.silent (alike.move delta))
    | jumpIfZero target => exact silently (alike.jump target _)
    | jumpIfNonzero target => exact silently (alike.jump target _)
    | output =>
      rw [alike.cell_eq]
      cases second.cell with
      | error fault => exact .error fault
      | ok value =>
        rw [index]
        exact .ok (.write value fun _ _ left => (left.withIndex _).proceed _)
    | input =>
      rw [index]
      exact .ok (.read fun _ _ left => (left.withIndex _).receive)
    | breakpoint =>
      obtain ⟨alike, nonneg⟩ := alike
      exact .ok (.silent (.intro alike nonneg))
    | foreign text => exact .error _

end Alike
end Engine
end Brainfuck
