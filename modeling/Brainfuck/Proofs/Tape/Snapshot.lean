import Brainfuck.Proofs.Invariant
import Brainfuck.Proofs.Tape.Edits

namespace Brainfuck

namespace Tape

/-- The snapshot has an entry for every address up to the highest that was reached, with the value
that stands there. -/
structure ListsAll (tape : Tape) : Prop where
  length : tape.snapshot.length = tape.high + 1
  entries : ∀ address ≤ tape.high, ∃ value, tape.get address = .ok value ∧
    tape.snapshot[address]? = some value

/-- The snapshot lists what was reached as far as it is set aside, and what it leaves out is
zero. -/
structure Lists (tape : Tape) : Prop where
  listsAll_iff : tape.ListsAll ↔ tape.high < tape.size
  length : tape.snapshot.length = min (tape.high + 1) tape.size
  listed : ∀ (address : Nat) (value : UInt8), tape.snapshot[address]? = some value →
    tape.get address = .ok value
  omitted : ∀ address ≤ tape.high, tape.snapshot[address]? = none →
    tape.size ≤ address ∧ tape.get address = .ok 0

variable {tape middle after : Tape} {edits more : List Edit} {size : Int} {address : Nat}
  {value : UInt8}

theorem length_snapshot (tape : Tape) : tape.snapshot.length = min (tape.high + 1) tape.size := by
  simp [snapshot]

theorem snapshot_eq_some_iff : tape.snapshot[address]? = some value ↔
    (address ≤ tape.high ∧ address < tape.size) ∧ tape.read address = value := by
  simp only [snapshot, List.getElem?_map, Option.map_eq_some_iff, List.getElem?_eq_some_iff,
    List.length_range, List.getElem_range]
  grind

theorem listsAll_iff : tape.ListsAll ↔ tape.high < tape.size := by
  constructor
  · rintro ⟨length, -⟩
    rw [length_snapshot] at length
    omega
  · intro inside
    refine ⟨?_, fun address reached => ⟨_, get_natCast tape address, ?_⟩⟩
    · rw [length_snapshot]
      omega
    · exact snapshot_eq_some_iff.mpr ⟨⟨reached, by omega⟩, rfl⟩

theorem byteBehind_eq_zero
    (elsewhere : ∀ edit ∈ edits, edit.stores = true → edit.address ≠ address) :
    byteBehind edits address = 0 := by
  induction edits using List.reverseRecOn with
  | nil => rfl
  | append_singleton edits edit ih =>
    have before := ih fun early member => elsewhere early (List.mem_append_left _ member)
    have here := elsewhere edit (List.mem_append_right _ List.mem_cons_self)
    rw [byteBehind_concat, before]
    cases edit with
    | set place number => exact if_neg (here rfl)
    | add place delta => exact if_neg (here rfl)
    | touch place => rfl

theorem Behind.read_eq_zero (behind : Behind size edits tape) (beyond : tape.size ≤ address) :
    tape.read address = 0 := by
  have zero : byteBehind edits address = 0 := by
    refine byteBehind_eq_zero fun edit member stores => ?_
    have inside := behind.size.1.2 edit member stores
    omega
  have same := behind.read address
  rw [zero] at same
  exact UInt8.toNat_inj.mp (Int.ofNat_inj.mp same)

theorem Behind.lists (behind : Behind size edits tape) : tape.Lists where
  listsAll_iff := listsAll_iff
  length := tape.length_snapshot
  listed address value found := by
    rw [get_natCast, (snapshot_eq_some_iff.mp found).2]
  omitted address reached absent := by
    have beyond : tape.size ≤ address := by
      by_contra inside
      rw [snapshot_eq_some_iff.mpr ⟨⟨reached, by omega⟩, rfl⟩] at absent
      cases absent
    exact ⟨beyond, by rw [get_natCast, behind.read_eq_zero beyond]⟩

theorem editAll_append (begun : tape.editAll edits = .ok middle)
    (done : middle.editAll more = .ok after) : tape.editAll (edits ++ more) = .ok after := by
  rw [editAll] at begun done ⊢
  rw [List.foldlM_append, begun]
  exact done

end Tape

namespace Machine

open Tape

variable {code : List Instruction} {block : Block} {start machine reached : Machine}
  {data changed : Data} {size : Int} {count : Nat}

/-- The snapshot covers all places where the pointer has been. -/
def Covered (start : Machine) (count : Nat) : Prop :=
  ∀ earlier ≤ count, (start.afterCalls earlier).engine.pointer <
    (start.afterCalls count).engine.tape.snapshot.length

/-- An instruction edits the tape from address 0 on. -/
theorem Data.exists_edits (change : data.Change changed) (onTape : 0 ≤ data.pointer)
    (unlimited : data.tape.room = none) : ∃ edits, data.tape.editAll edits = .ok changed.tape := by
  cases change with
  | none streams => exact ⟨[], rfl⟩
  | stored streams value =>
    have whole : UInt8.ofInt (value.toNat : Int) = value :=
      UInt8.toNat_inj.mp (by have := toNat_ofInt value.toNat; have := value.toNat_lt; omega)
    refine ⟨[.set data.pointer.toNat value.toNat], ?_⟩
    change (data.tape.put (data.pointer.toNat : Nat) (.ofInt value.toNat) >>= pure) = _
    rw [put_natCast unlimited, whole, Int.toNat_of_nonneg onTape]
    rfl
  | moved delta onTape' =>
    refine ⟨[.touch (data.pointer + delta).toNat], ?_⟩
    change Except.ok (data.tape.touch ((data.pointer + delta).toNat : Nat)) = _
    rw [Int.toNat_of_nonneg onTape']

theorem Turn.exists_edits (turn : Turn code machine reached) (bounded : machine.data.Bounded)
    (unlimited : machine.engine.tape.room = none) :
    ∃ edits, machine.engine.tape.editAll edits = .ok reached.engine.tape := by
  cases turn with
  | rested => exact ⟨[], rfl⟩
  | executed _ _ change _ => exact Data.exists_edits change bounded.onTape unlimited
  | failed => exact ⟨[], rfl⟩

namespace Begins

/-- What a run does to the tape is to edit it from address 0 on. -/
theorem exists_edits (begins : start.Begins (block.instructions 0))
    (blank : start.engine.tape = Tape.blank size) (count : Nat) :
    ∃ edits, (Tape.blank size).editAll edits = .ok (start.afterCalls count).engine.tape := by
  induction count with
  | zero => exact ⟨[], congrArg Except.ok blank.symm⟩
  | succ count ih =>
    obtain ⟨edits, begun⟩ := ih
    have unlimited : (start.afterCalls count).engine.tape.room = none := by
      obtain ⟨tape, done, behind⟩ := exists_behind size edits
      cases begun.symm.trans done
      exact behind.room
    obtain ⟨more, done⟩ := (begins.turn_afterCalls count).exists_edits
      (begins.bounded_afterCalls count) unlimited
    exact ⟨edits ++ more, editAll_append begun done⟩

theorem lists (begins : start.Begins (block.instructions 0))
    (blank : start.engine.tape = Tape.blank size) (count : Nat) :
    (start.afterCalls count).engine.tape.Lists := by
  obtain ⟨edits, done⟩ := begins.exists_edits blank count
  obtain ⟨tape, done', behind⟩ := exists_behind size edits
  cases done.symm.trans done'
  exact behind.lists

theorem covered_iff (begins : start.Begins (block.instructions 0)) (count : Nat) :
    start.Covered count ↔
      (start.afterCalls count).engine.tape.high < (start.afterCalls count).engine.tape.size := by
  have length := length_snapshot (start.afterCalls count).engine.tape
  constructor
  · intro covered
    obtain ⟨earlier, bound, same⟩ := begins.exists_pointer_eq_high count
    have inside := covered earlier bound
    omega
  · intro inside earlier bound
    have below := begins.pointer_le_high count earlier bound
    omega

end Begins
end Machine

/-- Behind all edits of a tape and behind all runs of programs, the snapshot lists what was reached
as far as it is set aside. It lists all of it, and covers the places where the pointer has been,
exactly if the highest address that was reached is set aside. -/
theorem snapshot_lists (size : Int) :
    (∀ edits : List Tape.Edit,
      ∃ tape, (Tape.blank size).editAll edits = .ok tape ∧ tape.Lists) ∧
    ∀ (source : String) (program : Program), build source = .ok program →
      ∀ (input : List (Option Int)) (count : Nat),
        let start := Machine.load program input (Tape.blank size)
        let tape := (start.afterCalls count).engine.tape
        tape.Lists ∧ (start.Covered count ↔ tape.high < tape.size) := by
  refine ⟨fun edits => ?_, fun source program built input count => ?_⟩
  · obtain ⟨tape, done, behind⟩ := Tape.exists_behind size edits
    exact ⟨tape, done, behind.lists⟩
  · obtain ⟨tokens, -, made⟩ := build_eq_ok_iff.mp built
    obtain ⟨block, -, rfl⟩ := Program.ofTokens_eq_ok_iff.mp made
    have begins := Machine.Begins.load (Program.ofBlock block tokens source) input size
    exact ⟨begins.lists rfl count, begins.covered_iff count⟩

/-- A program that moves to the right of the one cell that is set aside. -/
theorem snapshot_lists_moving :
    ∃ program, build ">>" = .ok program ∧
      let start := Machine.load program [] (Tape.blank 1)
      let tape := (start.afterCalls 2).engine.tape
      tape.Lists ∧ (start.Covered 2 ↔ tape.high < tape.size) := by
  have done : preprocess ">>" = .ok [.ofSymbol .right 0, .ofSymbol .right 1] := by cbv
  have built := build_eq_ok_iff.mpr ⟨_, done, rfl⟩
  exact ⟨_, built, (snapshot_lists 1).2 ">>" _ built [] 2⟩

/-- Two addresses are touched beyond the one cell that is set aside, by edits or by a program. The
snapshot has one entry, and not three. -/
theorem not_listsAll_touched :
    ∃ tape program, (Tape.blank 1).editAll [.touch 1, .touch 2] = .ok tape ∧
      build ">>" = .ok program ∧
        ((Machine.load program [] (Tape.blank 1)).afterCalls 2).engine.tape = tape ∧
        tape.high = 2 ∧ tape.snapshot = [0] ∧ ¬ tape.ListsAll ∧
        ¬ (Machine.load program [] (Tape.blank 1)).Covered 2 := by
  have done : preprocess ">>" = .ok [.ofSymbol .right 0, .ofSymbol .right 1] := by cbv
  have built := build_eq_ok_iff.mpr ⟨_, done, rfl⟩
  refine ⟨_, _, rfl, built, rfl, rfl, by cbv, ?_, ?_⟩
  · exact fun all => absurd (Tape.listsAll_iff.mp all) (by decide)
  · intro covered
    have inside := covered 2 (Nat.le_refl 2)
    revert inside
    decide

end Brainfuck
