import Brainfuck.Proofs.Evaluation
import Brainfuck.Proofs.Standing

/-! A machine that executes a program computes what the block of the program means.
Each end of the evaluation is an end of the run with the same data, and the run goes
on for ever exactly if there is no evaluation. -/

namespace Brainfuck

/-- The data are those of a store. -/
structure Machine.Data.Shows (data : Machine.Data) (store : Store) : Prop where
  cells : ∀ address, data.tape.read address = store.cells address
  pointer : data.pointer = store.pointer
  input : data.streams.input = store.input
  output : data.streams.output.toList = store.output

namespace Machine.Data.Shows

variable {data : Machine.Data} {store next : Store} {first : Primitive}

theorem unique (shows : data.Shows store) (shows' : data.Shows next) : store = next := by
  obtain ⟨cells, pointer, input, output⟩ := store
  obtain ⟨cells', pointer', input', output'⟩ := next
  have sameCells : cells = cells' := by
    funext address
    exact (shows.cells address).symm.trans (shows'.cells address)
  have samePointer := Int.ofNat.inj (shows.pointer.symm.trans shows'.pointer)
  have sameInput := shows.input.symm.trans shows'.input
  have sameOutput := shows.output.symm.trans shows'.output
  simp_all

theorem cell (shows : data.Shows store) : data.cell = store.cell := by
  rw [Machine.Data.cell, shows.pointer, shows.cells]
  rfl

theorem write (shows : data.Shows store) (value : UInt8) :
    (data.write value).Shows (store.write value) := by
  refine ⟨?_, shows.pointer, shows.input, shows.output⟩
  intro address
  simp only [Machine.Data.write, Tape.read_touch, Tape.read_store, Store.write, shows.pointer,
    Int.toNat_natCast, shows.cells, eq_comm]

theorem receive (shows : data.Shows store) : data.receive.Shows store.receive := by
  have input := shows.input
  unfold Machine.Data.receive Store.receive Streams.read
  cases pending : store.input with
  | nil =>
    rw [pending] at input
    simp only [input]
    exact shows
  | cons first rest =>
    rw [pending] at input
    simp only [input]
    have taken : Machine.Data.Shows { data with streams := { data.streams with input := rest } }
        { store with input := rest } := ⟨shows.cells, shows.pointer, rfl, shows.output⟩
    cases first with
    | none => exact taken
    | some value => exact taken.write _

/-- A primitive does to the data what it does to the store. -/
theorem act (shows : data.Shows store) (performed : store.perform first = some next) (ip : Int) :
    ∃ after, data.act ip first.instruction = some (ip + 1, after) ∧ after.Shows next := by
  cases first with
  | right =>
    cases performed
    have bound : ¬ data.pointer + 1 < 0 := by rw [shows.pointer]; omega
    refine ⟨_, if_neg bound, shows.cells, ?_, shows.input, shows.output⟩
    simp [shows.pointer]
  | left =>
    simp only [Store.perform] at performed
    split at performed
    · cases performed
    · next positive =>
      cases performed
      have bound : ¬ data.pointer + -1 < 0 := by rw [shows.pointer]; omega
      refine ⟨_, if_neg bound, shows.cells, ?_, shows.input, shows.output⟩
      simp only [shows.pointer]
      omega
  | increment =>
    cases performed
    exact ⟨_, rfl, by rw [shows.cell]; exact shows.write _⟩
  | decrement =>
    cases performed
    have minus : UInt8.ofInt (-1) = -1 := rfl
    refine ⟨_, rfl, ?_⟩
    rw [shows.cell, minus, ← UInt8.sub_eq_add_neg]
    exact shows.write _
  | output =>
    cases performed
    refine ⟨_, rfl, shows.cells, shows.pointer, shows.input, ?_⟩
    simp [Streams.write, shows.output, shows.cell]
  | input =>
    cases performed
    exact ⟨_, rfl, shows.receive⟩
  | breakpoint =>
    cases performed
    exact ⟨_, rfl, shows⟩

/-- Where there is no next store the instruction is a move to the left of cell 0. -/
theorem stuck (shows : data.Shows store) (performed : store.perform first = none) :
    first.instruction = .move (-1) ∧ data.pointer + -1 < 0 := by
  obtain ⟨rfl, zero⟩ := Store.perform_eq_none_iff.mp performed
  refine ⟨rfl, ?_⟩
  rw [shows.pointer, zero]
  decide

end Machine.Data.Shows

/-- Where a machine may stand to evaluate a block that begins at an index: before its
first instruction, or before the loop end of the loop that it begins with. -/
def Block.Entry (base ip : Nat) : Block → Prop
  | .loop body _ => ip = base ∨ ip = base + body.size + 1
  | .empty | .primitive _ _ => ip = base

theorem Block.Entry.start (block : Block) (base : Nat) : block.Entry base base := by
  cases block with
  | loop body rest => exact .inl rfl
  | _ => rfl

namespace Machine

variable {code : List Instruction} {base ip count : Nat} {data : Data} {store : Store}
  {outcome : Outcome} {block body rest : Block} {machine middle final : Machine}

/-- The machine gets to an index of the code, or fails, with the data of a store. -/
def Arrives (code : List Instruction) (ip : Nat) (machine : Machine) : Outcome → Prop
  | .finished store =>
    ∃ count final data, Steps count machine final ∧ final.At code ip data ∧ data.Shows store
  | .failed store =>
    ∃ count final, Steps count machine final ∧
      (∃ underflow, final.engine.status = .failed underflow) ∧ final.data.Shows store

theorem Arrives.after (steps : Steps count machine middle)
    (arrives : middle.Arrives code ip outcome) : machine.Arrives code ip outcome := by
  cases outcome with
  | finished store =>
    obtain ⟨more, final, data, rest, stands, shows⟩ := arrives
    exact ⟨_, final, data, steps.trans rest, stands, shows⟩
  | failed store =>
    obtain ⟨more, final, rest, failed, shows⟩ := arrives
    exact ⟨_, final, steps.trans rest, failed, shows⟩

/-- Both brackets of a loop test the cell and lead into the loop or behind it. -/
theorem At.test (stands : machine.At code ip data) (fits : Block.Fits code base (.loop body rest))
    (entry : Block.Entry base ip (.loop body rest)) :
    ∃ status stepped, machine.step = (.ok status, stepped) ∧
      stepped.At code (if data.cell = 0 then base + body.size + 2 else base + 1) data := by
  obtain ⟨opening, inner, closing, outer⟩ := fits
  obtain ⟨startInside, -⟩ := List.getElem?_eq_some_iff.mp opening
  obtain ⟨endInside, -⟩ := List.getElem?_eq_some_iff.mp closing
  rcases entry with rfl | rfl
  · have acts : data.act ip (.jumpIfZero (ip + body.size + 1 : Nat)) =
        some (((if data.cell = 0 then ip + body.size + 2 else ip + 1 : Nat) : Int), data) := by
      by_cases zero : data.cell = 0
      · rw [Data.act, if_pos zero, if_pos zero]
        rfl
      · rw [Data.act, if_neg zero, if_neg zero]
        rfl
    obtain ⟨stepped, stands'⟩ := stands.step _ opening acts (by split <;> omega)
    exact ⟨_, _, stepped, stands'⟩
  · have acts : data.act (base + body.size + 1 : Nat) (.jumpIfNonzero base) =
        some (((if data.cell = 0 then base + body.size + 2 else base + 1 : Nat) : Int), data) := by
      by_cases zero : data.cell = 0
      · rw [Data.act, if_pos zero, if_pos zero]
        rfl
      · rw [Data.act, if_neg zero, if_neg zero]
        rfl
    obtain ⟨stepped, stands'⟩ := stands.step _ closing acts (by split <;> omega)
    exact ⟨_, _, stepped, stands'⟩

theorem At.perform {first : Primitive} {next : Store} (stands : machine.At code base data)
    (found : code[base]? = some first.instruction) (shows : data.Shows store)
    (performed : store.perform first = some next) :
    ∃ status stepped after, machine.step = (.ok status, stepped) ∧
      stepped.At code (base + 1) after ∧ after.Shows next := by
  obtain ⟨inside, -⟩ := List.getElem?_eq_some_iff.mp found
  obtain ⟨after, acts, shows'⟩ := shows.act performed base
  obtain ⟨stepped, stands'⟩ := stands.step (base + 1) found acts inside
  exact ⟨_, _, after, stepped, stands', shows'⟩

end Machine

open Machine in
/-- An evaluation is followed by a machine that stands at an entry of the block. -/
theorem Block.Evaluates.arrives {code : List Instruction} {base ip : Nat} {data : Data}
    {store : Store} {outcome : Outcome} {block : Block} {machine : Machine}
    (evaluated : block.Evaluates store outcome) (fits : Block.Fits code base block)
    (entry : block.Entry base ip) (stands : machine.At code ip data) (shows : data.Shows store) :
    machine.Arrives code (base + block.size) outcome := by
  induction evaluated generalizing base ip data machine with
  | empty =>
    cases entry
    exact ⟨0, machine, data, .refl _, stands, shows⟩
  | @primitive first rest store next outcome performed _ ih =>
    cases entry
    obtain ⟨found, fits⟩ := fits
    obtain ⟨_, stepped, after, step, stands', shows'⟩ := stands.perform found shows performed
    have arrives := ih fits (.start rest _) stands' shows'
    have place : base + 1 + rest.size = base + (rest.size + 1) := by omega
    exact (place ▸ arrives).after (.next step (.refl _))
  | underflow stuck =>
    cases entry
    obtain ⟨move, below⟩ := shows.stuck stuck
    have step := stands.underflow (move ▸ fits.1) below
    refine ⟨1, machine.failed, .next step (.refl _), ⟨_, rfl⟩, ?_⟩
    exact (stands.data_eq ▸ shows : machine.data.Shows _)
  | @skip body rest store outcome zero _ ih =>
    obtain ⟨_, stepped, step, stands'⟩ := stands.test fits entry
    rw [shows.cell, if_pos zero] at stands'
    obtain ⟨-, -, -, outer⟩ := fits
    have arrives := ih outer (.start rest _) stands' shows
    have place : base + body.size + 2 + rest.size = base + (body.size + rest.size + 2) := by omega
    exact (place ▸ arrives).after (.next step (.refl _))
  | @again body rest store between outcome nonzero _ _ ihInner ihFollowing =>
    obtain ⟨_, stepped, step, stands'⟩ := stands.test fits entry
    rw [shows.cell, if_neg nonzero] at stands'
    obtain ⟨count, middle, after, inner, atEnd, shows'⟩ :=
      ihInner fits.2.1 (.start body _) stands' shows
    have place : base + 1 + body.size = base + body.size + 1 := by omega
    have arrives := ihFollowing fits (.inr place) atEnd shows'
    exact arrives.after ((Steps.next step (.refl _)).trans inner)
  | @inside body rest store last nonzero _ ih =>
    obtain ⟨_, stepped, step, stands'⟩ := stands.test fits entry
    rw [shows.cell, if_neg nonzero] at stands'
    obtain ⟨count, final, inner, failed, shows'⟩ := ih fits.2.1 (.start body _) stands' shows
    exact ⟨_, final, .next step inner, failed, shows'⟩

open Machine in
/-- A machine that finishes after standing at an entry of a block has followed an
evaluation of the block. -/
theorem Block.exists_evaluates {code : List Instruction} {base ip count : Nat} {data : Data}
    {store : Store} {block : Block} {machine final : Machine}
    (steps : Steps count machine final) (finished : final.engine.finished = true)
    (fits : Block.Fits code base block) (entry : block.Entry base ip)
    (stands : machine.At code ip data) (shows : data.Shows store) :
    ∃ outcome, block.Evaluates store outcome := by
  induction count using Nat.strongRecOn generalizing base ip data store block machine with
  | ind count ih =>
    cases block with
    | empty => exact ⟨_, .empty⟩
    | primitive first rest =>
      cases entry
      obtain ⟨found, fits⟩ := fits
      obtain ⟨inside, -⟩ := List.getElem?_eq_some_iff.mp found
      cases performed : store.perform first with
      | none => exact ⟨_, .underflow performed⟩
      | some next =>
        obtain ⟨_, stepped, after, step, stands', shows'⟩ := stands.perform found shows performed
        obtain ⟨fewer, less, steps'⟩ := steps.tail step (stands.running inside) finished
        obtain ⟨outcome, following⟩ :=
          ih fewer less steps' fits (.start rest _) stands' shows'
        exact ⟨outcome, .primitive performed following⟩
    | loop body rest =>
      obtain ⟨_, stepped, step, stands'⟩ := stands.test fits entry
      rw [shows.cell] at stands'
      have ⟨_, inner, closing, outer⟩ := fits
      obtain ⟨inside, -⟩ := List.getElem?_eq_some_iff.mp closing
      have running := stands.running (by rcases entry with rfl | rfl <;> omega)
      obtain ⟨fewer, less, steps'⟩ := steps.tail step running finished
      by_cases zero : store.cell = 0
      · rw [if_pos zero] at stands'
        obtain ⟨outcome, following⟩ := ih fewer less steps' outer (.start rest _) stands' shows
        exact ⟨outcome, .skip zero following⟩
      · rw [if_neg zero] at stands'
        obtain ⟨outcome, evaluated⟩ := ih fewer less steps' inner (.start body _) stands' shows
        cases outcome with
        | failed last => exact ⟨_, .inside zero evaluated⟩
        | finished between =>
          obtain ⟨_, middle, after, toEnd, atEnd, shows'⟩ :=
            evaluated.arrives inner (.start body _) stands' shows
          have entry' : (Block.loop body rest).Entry base (base + 1 + body.size) :=
            .inr (by omega)
          have unfinished := atEnd.running (by omega)
          obtain ⟨left, bound, remaining⟩ := toEnd.remainder steps' unfinished finished
          obtain ⟨outcome, following⟩ :=
            ih left (by omega) remaining fits entry' atEnd shows'
          exact ⟨outcome, .again zero evaluated following⟩

/-- A machine that has finished ended as the outcome says, with the data of its store. -/
def Outcome.ShownBy (machine : Machine) : Outcome → Prop
  | .finished store => machine.engine.status = .halted ∧ machine.data.Shows store
  | .failed store =>
    (∃ underflow, machine.engine.status = .failed underflow) ∧ machine.data.Shows store

theorem Outcome.ShownBy.unique {first second : Outcome} {machine : Machine}
    (shown : first.ShownBy machine) (shown' : second.ShownBy machine) : first = second := by
  cases first with
  | finished store =>
    cases second with
    | finished store' => rw [shown.2.unique shown'.2]
    | failed store' =>
      obtain ⟨underflow, status⟩ := shown'.1
      rw [shown.1] at status
      cases status
  | failed store =>
    cases second with
    | finished store' =>
      obtain ⟨underflow, status⟩ := shown.1
      rw [shown'.1] at status
      cases status
    | failed store' => rw [shown.2.unique shown'.2]

namespace Machine

/-- Every end of the evaluation of a block is an end of the run and the other way
round, so the run goes on for ever exactly if there is no evaluation. -/
structure Computes (machine : Machine) (block : Block) (store : Store) : Prop where
  halts : ∀ last, (∃ final, machine.EndsWith .halted final ∧ final.data.Shows last) ↔
    block.Evaluates store (.finished last)
  fails : ∀ last,
    (∃ underflow final, machine.EndsWith (.failed underflow) final ∧ final.data.Shows last) ↔
      block.Evaluates store (.failed last)
  diverges : machine.RunsForever ↔ ¬ ∃ outcome, block.Evaluates store outcome

variable {block : Block} {data : Data} {store : Store} {outcome : Outcome} {machine : Machine}

theorem At.evaluates_iff (stands : machine.At (block.instructions 0) 0 data)
    (shows : data.Shows store) :
    block.Evaluates store outcome ↔
      ∃ count final, Steps count machine final ∧ final.engine.finished = true ∧
        outcome.ShownBy final := by
  have ends (outcome : Outcome) (evaluated : block.Evaluates store outcome) :
      ∃ count final, Steps count machine final ∧ final.engine.finished = true ∧
        outcome.ShownBy final := by
    have arrives := evaluated.arrives block.fits_instructions (.start block 0) stands shows
    cases outcome with
    | finished last =>
      obtain ⟨count, final, after, steps, atEnd, shows'⟩ := arrives
      refine ⟨count, final, steps, atEnd.finished_iff.mpr (by simp), ?_, atEnd.data_eq ▸ shows'⟩
      rw [atEnd.status, if_neg (by simp)]
    | failed last =>
      obtain ⟨count, final, steps, ⟨underflow, status⟩, shows'⟩ := arrives
      exact ⟨count, final, steps, by rw [Engine.finished, status]; rfl, ⟨underflow, status⟩, shows'⟩
  constructor
  · exact ends outcome
  · intro reached
    obtain ⟨count, final, steps, finished, shown⟩ := reached
    obtain ⟨other, evaluated⟩ := Block.exists_evaluates steps finished block.fits_instructions
      (.start block 0) stands shows
    obtain ⟨count', final', steps', finished', shown'⟩ := ends other evaluated
    cases steps.final_unique steps' finished finished'
    exact shown.unique shown' ▸ evaluated

theorem At.computes (stands : machine.At (block.instructions 0) 0 data) (shows : data.Shows store) :
    machine.Computes block store where
  halts last := by
    rw [stands.evaluates_iff shows]
    constructor
    · intro halting
      obtain ⟨final, ended, shows'⟩ := halting
      obtain ⟨count, steps, finished, status⟩ := endsWith_iff.mp ended
      exact ⟨count, final, steps, finished, status, shows'⟩
    · intro reached
      obtain ⟨count, final, steps, finished, status, shows'⟩ := reached
      exact ⟨final, endsWith_iff.mpr ⟨count, steps, finished, status⟩, shows'⟩
  fails last := by
    rw [stands.evaluates_iff shows]
    constructor
    · intro failing
      obtain ⟨underflow, final, ended, shows'⟩ := failing
      obtain ⟨count, steps, finished, status⟩ := endsWith_iff.mp ended
      exact ⟨count, final, steps, finished, ⟨underflow, status⟩, shows'⟩
    · intro reached
      obtain ⟨count, final, steps, finished, ⟨underflow, status⟩, shows'⟩ := reached
      exact ⟨underflow, final, endsWith_iff.mpr ⟨count, steps, finished, status⟩, shows'⟩
  diverges := by
    have sound : machine.Sound block := .inl ⟨0, data, stands⟩
    rw [sound.runsForever_iff, not_congr]
    constructor
    · intro ending
      obtain ⟨status, final, ended⟩ := ending
      obtain ⟨count, steps, finished, -⟩ := endsWith_iff.mp ended
      exact Block.exists_evaluates steps finished block.fits_instructions (.start block 0) stands
        shows
    · intro meaning
      obtain ⟨outcome, evaluated⟩ := meaning
      obtain ⟨count, final, steps, finished, -⟩ := (stands.evaluates_iff shows).mp evaluated
      exact ⟨_, final, endsWith_iff.mpr ⟨count, steps, finished, rfl⟩⟩

end Machine

namespace Block

/-- The symbols of a block as a text. -/
def text (block : Block) : String := String.ofList (block.symbols.map Symbol.toChar)

theorem text_injective {first second : Block} (same : first.text = second.text) :
    first = second := by
  apply symbols_injective
  have chars := String.ofList_injective same
  exact (List.map_inj_right fun _ _ => Symbol.toChar_injective).mp chars

theorem mapM_symbol (block : Block) (base : Nat) :
    (block.instructions base).mapM Instruction.symbol = .ok block.symbols := by
  have read := List.mapM_map (g := id) (f := Instruction.symbol) (l := block.instructions base)
  rw [map_symbol, List.mapM_map] at read
  rw [← Function.id_comp Instruction.symbol, ← read]
  exact List.mapM_pure.trans (congrArg _ (List.map_id _))

end Block

theorem Program.flatten_ofBlock (block : Block) (tokens : List Token) (source : String) :
    (ofBlock block tokens source).flatten = .ok block.text := by
  rw [flatten, ofBlock, block.mapM_symbol]
  rfl

/-- The instructions of every program that is built are the layout of one block, and
from any input, on a tape of any size, the program computes what that block means. -/
theorem run_computes_block {tokens : List Token} {source : String} {program : Program}
    (built : Program.ofTokens tokens source = .ok program) :
    ∃ block : Block, (∀ other : Block, program.flatten = .ok other.text ↔ other = block) ∧
      ∀ (input : List (Option Int)) (size : Int),
        (Machine.load program input (Tape.blank size)).Computes block (.initial input) := by
  obtain ⟨block, -, rfl⟩ := Program.ofTokens_eq_ok_iff.mp built
  refine ⟨block, ?_, ?_⟩
  · intro other
    rw [Program.flatten_ofBlock]
    constructor
    · intro same
      exact (Block.text_injective (Except.ok.inj same)).symm
    · rintro rfl
      rfl
  · intro input size
    apply (Machine.At.load (Program.ofBlock block tokens source) input size).computes
    exact ⟨fun address => Tape.read_blank size address, rfl, rfl, rfl⟩

/-- The program of `,[<[-]]` has a loop in a loop. -/
theorem run_computes_block_nested :
    ∃ program, Program.ofTokens [.ofSymbol .input 0, .ofSymbol .loopStart 1, .ofSymbol .left 2,
        .ofSymbol .loopStart 3, .ofSymbol .decrement 4, .ofSymbol .loopEnd 5,
        .ofSymbol .loopEnd 6] "" = .ok program ∧
      ∃ block : Block, (∀ other : Block, program.flatten = .ok other.text ↔ other = block) ∧
        ∀ (input : List (Option Int)) (size : Int),
          (Machine.load program input (Tape.blank size)).Computes block (.initial input) := by
  have built : Program.ofTokens [.ofSymbol .input 0, .ofSymbol .loopStart 1, .ofSymbol .left 2,
      .ofSymbol .loopStart 3, .ofSymbol .decrement 4, .ofSymbol .loopEnd 5,
      .ofSymbol .loopEnd 6] "" =
    .ok ⟨#[.input, .jumpIfZero 6, .move (-1), .jumpIfZero 5, .adjust (-1), .jumpIfNonzero 3,
      .jumpIfNonzero 1], #[0, 1, 2, 3, 4, 5, 6], ""⟩ := rfl
  exact ⟨_, built, run_computes_block built⟩

end Brainfuck
