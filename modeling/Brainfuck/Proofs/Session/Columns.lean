import Brainfuck.Proofs.Rebuilding
import Brainfuck.Proofs.Session.Endings
import Brainfuck.Proofs.Text.Lines
import Brainfuck.Proofs.Text.Rows

/-! The columns in which an observation is shown. A field is three characters wide, so values and
marks always stand one below the other. An address takes more than three digits from 1000 on, and
moves the addresses behind it away from their cells. -/

namespace Brainfuck

namespace Observation

variable {observation : Observation} {description field : String} {distance : Int}
  {place : Nat}

def memoryRow (observation : Observation) : Text.Row where
  label := "Memory:   ["
  separator := "|"
  fields := observation.valueFields
  closing := "]"

def pointerRow (observation : Observation) : Text.Row where
  label := "Pointer:   "
  separator := " "
  fields := observation.pointerFields

def addressRow (observation : Observation) : Text.Row where
  label := "Address:   "
  separator := " "
  fields := observation.addressFields

theorem rows_eq (observation : Observation) (description : String) :
    observation.rows description =
      [observation.heading description, observation.memoryRow.text, observation.pointerRow.text,
        observation.addressRow.text] := by
  simp only [rows, Text.Row.text, memoryRow, pointerRow, addressRow, String.append_empty]

/-- The window holds bytes, from its start to a distance on the right of the pointer. -/
structure Framed (observation : Observation) (distance : Int) : Prop where
  onTape : 0 ≤ observation.pointer
  wide : 0 ≤ distance
  start : observation.windowStart = max 0 (observation.pointer - distance)
  length : (observation.window.length : Int) =
    observation.pointer + distance + 1 - observation.windowStart
  bytes : ∀ value ∈ observation.window, ∃ byte : UInt8, value = byte.toNat

theorem cells_getElem? (observation : Observation) (place : Nat) :
    observation.cells[place]? =
      observation.window[place]?.map fun value => (observation.windowStart + place, value) := by
  simp only [cells, List.getElem?_map, List.getElem?_zipIdx, Option.map_map, Nat.zero_add]
  rfl

theorem valueFields_getElem? (observation : Observation) (place : Nat) :
    observation.valueFields[place]? = observation.window[place]?.map (Text.rightAligned 3) := by
  rw [valueFields, List.getElem?_map, cells_getElem?, Option.map_map]
  rfl

theorem pointerFields_getElem? (observation : Observation) (place : Nat) :
    observation.pointerFields[place]? = observation.window[place]?.map fun _ =>
      if observation.windowStart + place = observation.pointer then " ^ " else "   " := by
  rw [pointerFields, List.getElem?_map, cells_getElem?, Option.map_map]
  rfl

theorem addressFields_getElem? (observation : Observation) (place : Nat) :
    observation.addressFields[place]? =
      observation.window[place]?.map fun _ =>
        Text.rightAligned 3 (observation.windowStart + place) := by
  rw [addressFields, List.getElem?_map, cells_getElem?, Option.map_map]
  rfl

/-- The rows that are made of fields. -/
def tables (observation : Observation) : List Text.Row :=
  [observation.memoryRow, observation.pointerRow, observation.addressRow]

theorem mem_tables {row : Text.Row} : row ∈ observation.tables ↔
    row = observation.memoryRow ∨ row = observation.pointerRow ∨ row = observation.addressRow := by
  simp [tables]

theorem length_fields {row : Text.Row} (member : row ∈ observation.tables) :
    row.fields.length = observation.window.length := by
  rcases mem_tables.mp member with rfl | rfl | rfl
  · simp [memoryRow, valueFields, cells]
  · simp [pointerRow, pointerFields, cells]
  · simp [addressRow, addressFields, cells]

/-- A field that is three characters wide, as those before it are, stands where it does in the other
rows. -/
theorem columns_of_narrow {row : Text.Row} (inside : place < observation.window.length)
    (member : row ∈ observation.tables)
    (narrow : ∀ field ∈ row.fields.take (place + 1), field.length = 3) :
    row.columns place = (11 + place * 4, 14 + place * 4) := by
  have labelled : row.label.length = 11 ∧ row.separator.length = 1 := by
    rcases mem_tables.mp member with rfl | rfl | rfl
    · exact (by decide : "Memory:   [".length = 11 ∧ "|".length = 1)
    · exact (by decide : "Pointer:   ".length = 11 ∧ " ".length = 1)
    · exact (by decide : "Address:   ".length = 11 ∧ " ".length = 1)
  rw [Text.Row.columns_of_width (by rwa [length_fields member]) narrow, labelled.1, labelled.2,
    Nat.add_right_comm]

theorem length_pointerField (member : field ∈ observation.pointerFields) :
    field.length = 3 := by
  obtain ⟨⟨address, value⟩, -, rfl⟩ := List.mem_map.mp member
  dsimp only
  split <;> rfl

theorem pointerRow_columns (inside : place < observation.window.length) :
    observation.pointerRow.columns place = (11 + place * 4, 14 + place * 4) :=
  columns_of_narrow inside (by simp [mem_tables]) fun _ member =>
    length_pointerField (List.mem_of_mem_take member)

theorem pointerField_of_pointer (inside : place < observation.window.length)
    (here : observation.windowStart + place = observation.pointer) :
    observation.pointerRow.fields[place]? = some " ^ " := by
  rw [pointerRow, pointerFields_getElem?, List.getElem?_eq_getElem inside, Option.map_some,
    if_pos here]

theorem not_mem_pointerField (apart : observation.windowStart + place ≠ observation.pointer)
    (found : observation.pointerRow.fields[place]? = some field) : '^' ∉ field.toList := by
  rw [pointerRow, pointerFields_getElem?, Option.map_eq_some_iff] at found
  obtain ⟨-, -, rfl⟩ := found
  rw [if_neg apart]
  decide

theorem addressRow_field (inside : place < observation.window.length) :
    observation.addressRow.fields[place]? =
      some (Text.rightAligned 3 (observation.windowStart + place)) := by
  rw [addressRow, addressFields_getElem?, List.getElem?_eq_getElem inside]
  rfl

namespace Framed

variable (framed : observation.Framed distance)
include framed

theorem length_valueField (member : field ∈ observation.valueFields) :
    field.length = 3 := by
  obtain ⟨⟨address, value⟩, found, rfl⟩ := List.mem_map.mp member
  obtain ⟨⟨value, index⟩, found, same⟩ := List.mem_map.mp found
  cases same
  obtain ⟨byte, rfl⟩ := framed.bytes value (List.fst_mem_of_mem_zipIdx found)
  exact (Text.length_rightAligned_eq_iff (by decide) byte.toNat).mpr
    (Nat.lt_trans byte.toNat_lt (by decide))

theorem memoryRow_columns (inside : place < observation.window.length) :
    observation.memoryRow.columns place = (11 + place * 4, 14 + place * 4) :=
  columns_of_narrow inside (by simp [mem_tables]) fun _ member =>
    framed.length_valueField (List.mem_of_mem_take member)

theorem length_addressField_iff (place : Nat) :
    (Text.rightAligned 3 (observation.windowStart + place)).length = 3 ↔
      observation.windowStart + place < 1000 := by
  have start := framed.start
  obtain ⟨address, same⟩ : ∃ address : Nat, observation.windowStart + place = address :=
    ⟨(observation.windowStart + place).toNat, by omega⟩
  rw [same, Text.length_rightAligned_eq_iff (by decide)]
  omega

/-- An address stands below its cell exactly if it has no more than three digits. -/
theorem addressRow_columns_iff (inside : place < observation.window.length) :
    observation.addressRow.columns place = observation.pointerRow.columns place ↔
      observation.windowStart + place < 1000 := by
  rw [pointerRow_columns inside]
  constructor
  · intro same
    rw [Text.Row.columns_eq (addressRow_field inside), Prod.mk.injEq] at same
    exact (framed.length_addressField_iff place).mp (by omega)
  · intro below
    refine columns_of_narrow inside (by simp [mem_tables]) fun field member => ?_
    obtain ⟨earlier, before, rfl⟩ := List.mem_take_iff_getElem.mp member
    have upTo : earlier ≤ place := by omega
    have shown : observation.addressRow.fields[earlier]? = _ := addressRow_field (by omega)
    obtain ⟨_, same⟩ := List.getElem?_eq_some_iff.mp shown
    rw [same, framed.length_addressField_iff]
    omega

/-- Each address of more than three digits moves those behind it further to the right. -/
theorem addressRow_columns_ge {first : Nat} (long : 1000 ≤ observation.windowStart + first)
    (inside : place < observation.window.length) :
    (observation.pointerRow.columns place).1 + (place - first) ≤
      (observation.addressRow.columns place).1 := by
  rw [pointerRow_columns inside]
  change 11 + place * 4 + (place - first) ≤ (observation.addressRow.front place).length
  induction place with
  | zero =>
    have label : observation.addressRow.label.length = 11 :=
      (by decide : "Address:   ".length = 11)
    rw [Text.Row.length_front, label]
    omega
  | succ place ih =>
    have shorter := ih (by omega)
    have separator : observation.addressRow.separator.length = 1 :=
      (by decide : " ".length = 1)
    have least : 3 ≤ (Text.rightAligned 3 (observation.windowStart + place)).length := by
      rw [Text.length_rightAligned]
      exact Nat.le_max_left _ _
    rw [Text.Row.length_front_succ (addressRow_field (by omega)), separator]
    by_cases above : first ≤ place
    · have wide := mt (framed.length_addressField_iff place).mp (by omega)
      omega
    · omega

theorem exists_mark : ∃ place < observation.window.length,
    observation.windowStart + place = observation.pointer ∧
      ∀ column, observation.pointerRow.text.toList[column]? = some '^' ↔
        column = (observation.pointerRow.columns place).1 + 1 := by
  obtain ⟨onTape, wide, start, length, -⟩ := framed
  obtain ⟨place, here⟩ : ∃ place : Nat, observation.windowStart + place = observation.pointer :=
    ⟨(observation.pointer - observation.windowStart).toNat, by omega⟩
  have inside : place < observation.window.length := by omega
  refine ⟨place, inside, here, fun column => ?_⟩
  have clear : observation.pointerRow.Clear '^' := by
    constructor <;> simp [pointerRow]
  have before : '^' ∉ (observation.pointerRow.front place).toList :=
    clear.not_mem_front fun field member => by
      obtain ⟨other, less, found⟩ := List.mem_take_iff_getElem.mp member
      exact not_mem_pointerField (by omega) (List.getElem?_eq_some_iff.mpr ⟨_, found⟩)
  have behind : '^' ∉ (observation.pointerRow.rest place).toList :=
    clear.not_mem_rest fun field member => by
      obtain ⟨other, less, found⟩ := List.mem_drop_iff_getElem.mp member
      exact not_mem_pointerField (by omega) (List.getElem?_eq_some_iff.mpr ⟨_, found⟩)
  have text : observation.pointerRow.text.toList =
      ((observation.pointerRow.front place).toList ++ [' ']) ++
        '^' :: (' ' :: (observation.pointerRow.rest place).toList) := by
    rw [Text.Row.text_eq (pointerField_of_pointer inside here)]
    simp
  rw [text, Text.Row.getElem?_eq_mark_iff (by simpa using before) (by simpa using behind),
    List.length_append, String.length_toList]
  rfl

end Framed

theorem not_mem_description {instruction : Instruction}
    (described : instruction.description = .ok description) : '\n' ∉ description.toList := by
  have jump (char : Char) (target : Int) (unfed : char ≠ '\n') :
      '\n' ∉ (s!"{char} (target: {target})").toList := by
    have digits := Text.not_mem_repr target
    simp [toString, Ne.symm unfed, digits]
  cases instruction with
  | jumpIfZero target => cases described; exact jump _ target (by decide)
  | jumpIfNonzero target => cases described; exact jump _ target (by decide)
  | foreign text => cases described
  | move delta | adjust delta =>
    cases described
    change '\n' ∉ (Char.toString (Symbol.toChar (if 0 < delta then _ else _))).toList
    split <;> decide
  | output | input | breakpoint => cases described; decide

theorem not_mem_heading (plain : '\n' ∉ description.toList) :
    '\n' ∉ (observation.heading description).toList := by
  have steps := Text.not_mem_repr observation.steps
  have index := Text.not_mem_repr observation.index
  have pointer := Text.not_mem_repr observation.pointer
  simp [heading, toString, plain, steps, index, pointer]

theorem not_mem_row {row : Text.Row} (member : row ∈ observation.tables) :
    '\n' ∉ row.text.toList := by
  have clear : row.Clear '\n' := by
    rcases mem_tables.mp member with rfl | rfl | rfl <;> constructor <;>
      simp [memoryRow, pointerRow, addressRow]
  refine clear.not_mem_text fun field found => ?_
  rcases mem_tables.mp member with rfl | rfl | rfl <;>
    obtain ⟨⟨address, value⟩, -, rfl⟩ := List.mem_map.mp found
  · exact Text.not_mem_rightAligned 3 value
  · dsimp only
    split <;> decide
  · exact Text.not_mem_rightAligned 3 address

theorem lines_text (described : observation.instruction.description = .ok description) :
    ∃ text, observation.text = .ok text ∧ Text.lines text.toList =
      (observation.heading description).toList ::
        observation.tables.map fun row => row.text.toList := by
  refine ⟨"\n".intercalate (observation.rows description), by rw [text, described]; rfl, ?_⟩
  rw [String.toList_intercalate]
  have rows : (observation.rows description).map String.toList =
      (observation.heading description).toList ::
        observation.tables.map fun row => row.text.toList := by
    rw [rows_eq]
    rfl
  rw [rows]
  refine Text.lines_intercalate (by simp) fun row member => ?_
  rcases List.mem_cons.mp member with rfl | member
  · exact not_mem_heading (not_mem_description described)
  · obtain ⟨row, found, rfl⟩ := List.mem_map.mp member
    exact not_mem_row found

/-- What the text of an observation shows wherever the addresses stand. It has four lines, three of
which hold a field for each cell. A cell has its value and its mark in the same columns, and the
only mark is that of the cell at the pointer. -/
structure Rendered (observation : Observation) (cell : Int) : Prop where
  lines : ∃ text heading, observation.text = .ok text ∧ Text.lines text.toList =
    heading :: observation.tables.map fun row => row.text.toList
  fields : ∀ row ∈ observation.tables, row.fields.length = observation.window.length ∧
    ∀ place field, row.fields[place]? = some field →
      row.text.toList.extract (row.columns place).1 (row.columns place).2 = field.toList
  values : ∀ place < observation.window.length,
    observation.memoryRow.columns place = observation.pointerRow.columns place
  marked : ∃ place, observation.memoryRow.fields[place]? = some (Text.rightAligned 3 cell) ∧
    observation.addressRow.fields[place]? = some (Text.rightAligned 3 observation.pointer) ∧
    ∀ column, observation.pointerRow.text.toList[column]? = some '^' ↔
      column = (observation.pointerRow.columns place).1 + 1

/-- The addresses stand in the columns of their cells, too. -/
structure Aligned (observation : Observation) (cell : Int) : Prop extends
    observation.Rendered cell where
  addresses : ∀ place < observation.window.length,
    observation.addressRow.columns place = observation.pointerRow.columns place

theorem Framed.rendered {cell : Int} (framed : observation.Framed distance)
    (described : observation.instruction.description = .ok description)
    (held : ∀ place : Nat, observation.windowStart + place = observation.pointer →
      observation.window[place]? = some cell) : observation.Rendered cell where
  lines := by
    obtain ⟨text, shown, lines⟩ := lines_text described
    exact ⟨text, _, shown, lines⟩
  fields row member :=
    ⟨length_fields member, fun place field found => Text.Row.extract_columns found⟩
  values place inside := by rw [framed.memoryRow_columns inside, pointerRow_columns inside]
  marked := by
    obtain ⟨place, inside, here, marked⟩ := framed.exists_mark
    refine ⟨place, ?_, here ▸ addressRow_field inside, marked⟩
    rw [memoryRow, valueFields_getElem?, held place here, Option.map_some]

/-- The window is aligned exactly if no address in it takes more than three digits. -/
theorem Framed.aligned_iff {cell : Int} (framed : observation.Framed distance)
    (rendered : observation.Rendered cell) :
    observation.Aligned cell ↔ observation.pointer + distance < 1000 := by
  have start := framed.start
  have length := framed.length
  have wide := framed.wide
  have onTape := framed.onTape
  have last : ∃ place : Nat, place < observation.window.length ∧
      observation.windowStart + place = observation.pointer + distance :=
    ⟨(observation.pointer + distance - observation.windowStart).toNat, by omega, by omega⟩
  constructor
  · intro aligned
    obtain ⟨place, inside, furthest⟩ := last
    have below := (framed.addressRow_columns_iff inside).mp (aligned.addresses place inside)
    omega
  · intro below
    exact ⟨rendered, fun place inside => (framed.addressRow_columns_iff inside).mpr (by omega)⟩

end Observation

theorem Machine.Placed.onTape {code : List Instruction} {machine : Machine}
    (placed : machine.Placed code) : 0 ≤ machine.engine.pointer := by
  have ready {machine : Machine} {ip : Nat} {data : Machine.Data}
      (stands : machine.At code ip data) : machine.data.Ready := stands.data_eq ▸ stands.ready
  cases placed with
  | stands stands => exact (ready stands).onTape
  | failed stood _ => exact (ready stood).onTape

namespace Session

variable {session : Session} {observation : Observation}

theorem pointer_of_observe (observed : session.observe = some observation) :
    observation.pointer = session.engine.pointer := by
  obtain ⟨index, last, observed⟩ := Option.bind_eq_some_iff.mp observed
  obtain ⟨instruction, found, observed⟩ := Option.bind_eq_some_iff.mp observed
  cases observed
  rfl

theorem framed_of_observe (onTape : 0 ≤ session.engine.pointer) (wide : 0 ≤ session.options.window)
    (observed : session.observe = some observation) :
    observation.Framed session.options.window ∧
      ∀ place : Nat, observation.windowStart + place = observation.pointer →
        observation.window[place]? =
          some ((session.engine.tape.read session.engine.pointer.toNat).toNat : Int) := by
  obtain ⟨index, last, observed⟩ := Option.bind_eq_some_iff.mp observed
  obtain ⟨instruction, found, observed⟩ := Option.bind_eq_some_iff.mp observed
  cases observed
  have start : ((session.engine.pointer - session.options.window).toNat : Int) =
      max 0 (session.engine.pointer - session.options.window) := by omega
  refine ⟨⟨onTape, wide, start, ?_, fun value member => ?_⟩, fun place here => ?_⟩
  · simp only [List.length_map, List.length_range']
    omega
  · obtain ⟨byte, -, rfl⟩ := List.mem_map.mp member
    exact ⟨byte, rfl⟩
  · dsimp only [Tape.window] at here ⊢
    rw [List.getElem?_map, List.getElem?_map, List.getElem?_range' (by omega)]
    have address : (session.engine.pointer - session.options.window).toNat + 1 * place =
        session.engine.pointer.toNat := by omega
    rw [address]
    rfl

def cellValue (session : Session) : Int :=
  (session.engine.tape.read session.engine.pointer.toNat).toNat

/-- A session over a program: calls lead to it, or its engine stands where a run of the program
comes to, as it does in the midst of a call. -/
inductive Over (program : Program) : Session → Prop where
  | arrived {World : Type} {listeners : Listeners World} {options : Options} {size : Int}
      {world : World} {state : Session × World} (discreet : listeners.Discreet)
      (arrived : Arrived listeners (start program options (Tape.blank size), world) state) :
      Over program state.1
  | running {session : Session} (input : List (Option Int)) (size : Int) (count : Nat)
      (same : session.engine =
        ((Machine.load program input (Tape.blank size)).afterCalls count).engine) :
      Over program session

theorem Over.exists_placed {tokens : List Token} {source : String} {program : Program}
    (built : Program.ofTokens tokens source = .ok program) (belongs : Over program session) :
    ∃ block, session.engine.Placed block := by
  cases belongs with
  | @arrived _ _ options size _ _ discreet arrived =>
    obtain ⟨block, placed⟩ := start_placed built options size
    exact ⟨block, (arrived.waiting discreet ⟨rfl, placed⟩).placed⟩
  | running input size count same =>
    obtain ⟨block, -, rfl⟩ := Program.ofTokens_eq_ok_iff.mp built
    have begins : Machine.Begins (block.instructions 0) _ :=
      .load (Program.ofBlock block tokens source) input size
    exact ⟨block, same ▸ .of_machine (begins.placed_afterCalls count)⟩

/-- The view is aligned as far as the addresses have no more than three digits. -/
theorem view_aligned_iff {tokens : List Token} {source : String} {program : Program}
    (built : Program.ofTokens tokens source = .ok program) (belongs : Over program session)
    (wide : 0 ≤ session.options.window) (observed : session.observe = some observation) :
    observation.Rendered session.cellValue ∧
      (∀ place < observation.window.length,
        observation.addressRow.columns place = observation.pointerRow.columns place ↔
          observation.windowStart + place < 1000) ∧
      (observation.Aligned session.cellValue ↔
        observation.pointer + session.options.window < 1000) := by
  obtain ⟨block, placed⟩ := belongs.exists_placed built
  have onTape : 0 ≤ session.engine.pointer := (placed {}).onTape
  obtain ⟨framed, held⟩ := framed_of_observe onTape wide observed
  have same : session.engine = (⟨session.engine, {}⟩ : Machine).engine := rfl
  obtain ⟨description, described⟩ := legible_of_observe (placed {}) same observed
  have rendered : observation.Rendered session.cellValue := framed.rendered described held
  exact ⟨rendered, fun place inside => framed.addressRow_columns_iff inside,
    framed.aligned_iff rendered⟩

/-- The view behind `+>`, with a cell to the left and one to the right of the pointer. -/
theorem view_aligned_iff_near :
    let program : Program := ⟨#[.adjust 1, .move 1], #[0, 1], "+>"⟩
    let fresh : Session × Streams × List Bool :=
      (start program { window := 1 } (Tape.blank 1), {}, [])
    let session := (Call.perform .scripted 2 (.resume none) fresh).2.1
    let observation : Observation := ⟨1, 1, .move 1, [1, 0, 0], 0, 2⟩
    Program.ofTokens [.ofSymbol .increment 0, .ofSymbol .right 1] "+>" = .ok program ∧
      session.observe = some observation ∧
      observation.text = .ok ("Step 2: '>' at 1, pointer=1\nMemory:   [  1|  0|  0]\n" ++
        "Pointer:        ^     \nAddress:     0   1   2") ∧
      observation.Aligned 0 := by
  intro program fresh session observation
  have built : Program.ofTokens [.ofSymbol .increment 0, .ofSymbol .right 1] "+>" =
    .ok program := rfl
  have arrived : Arrived .scripted fresh (Call.perform .scripted 2 (.resume none) fresh).2 :=
    .called .fresh 2 (.resume none)
  have belongs : Over program session := .arrived Listeners.scripted_discreet arrived
  have observed : session.observe = some observation := by rfl
  have view := view_aligned_iff built belongs (by decide) observed
  exact ⟨built, observed, by cbv, view.2.2.mpr (by decide)⟩

end Session

/-- Moves to the right, and nothing else. -/
def Block.rightward : Nat → Block
  | 0 => .empty
  | count + 1 => .primitive .right (rightward count)

theorem Block.symbols_rightward (count : Nat) :
    (rightward count).symbols = List.replicate count .right := by
  induction count with
  | zero => rfl
  | succ count ih => rw [rightward, symbols, ih]; rfl

theorem Block.instructions_rightward (count base : Nat) :
    (rightward count).instructions base = List.replicate count (.move 1) := by
  induction count generalizing base with
  | zero => rfl
  | succ count ih => rw [rightward, instructions, ih]; rfl

theorem exists_build_rightward (count : Nat) :
    ∃ program, build (String.ofList (List.replicate count '>')) = .ok program ∧
      program.instructions.toList = List.replicate count (.move 1) := by
  have blank : ∀ char ∈ [], Text.isBlank char = true := nofun
  obtain ⟨program, built, code, -⟩ := exists_build_text (Block.rightward count) blank
  have text : (Block.rightward count).text ++ String.ofList [] =
      String.ofList (List.replicate count '>') := by
    rw [Block.text, Block.symbols_rightward, List.map_replicate, ← String.ofList_append,
      List.append_nil]
    rfl
  rw [text] at built
  exact ⟨program, built, by rw [code, Block.instructions_rightward]⟩

theorem Machine.At.rightward {start : Machine} {data : Machine.Data} {count place : Nat}
    (stands : start.At (List.replicate count (.move 1)) 0 data) (origin : data.pointer = 0)
    (within : place ≤ count) :
    ∃ reached, (start.afterCalls place).At (List.replicate count (.move 1)) place reached ∧
      reached.pointer = place := by
  induction place with
  | zero => exact ⟨data, stands, origin⟩
  | succ place ih =>
    obtain ⟨reached, stands', pointer⟩ := ih (by omega)
    have found : (List.replicate count (Instruction.move 1))[place]? = some (.move 1) := by
      rw [List.getElem?_replicate, if_pos (by omega)]
    have acts : reached.act place (.move 1) = some (((place + 1 : Nat) : Int), { reached with
        pointer := reached.pointer + 1, tape := reached.tape.touch (reached.pointer + 1) }) :=
      if_neg (by omega)
    obtain ⟨step, stands''⟩ := stands'.step (place + 1) found acts (by simpa using within)
    have same : start.afterCalls (place + 1) = (start.afterCalls place).goTo _ _ :=
      congrArg Prod.snd step
    refine ⟨_, same ▸ stands'', ?_⟩
    change reached.pointer + 1 = _
    omega

namespace Session

theorem exists_view_rightward (options : Options) (place : Nat) :
    ∃ program session observation,
      build (String.ofList (List.replicate (place + 1) '>')) = .ok program ∧
        Over program session ∧ session.options = options ∧ session.observe = some observation ∧
          observation.pointer = place + 1 := by
  obtain ⟨program, built, code⟩ := exists_build_rightward (place + 1)
  let start := Machine.load program [] (Tape.blank 1)
  have stands : start.At program.instructions.toList 0 _ := .load program [] 1
  rw [code] at stands
  obtain ⟨_, stands', -⟩ := stands.rightward rfl (Nat.le_succ place)
  obtain ⟨reached, stands'', pointer⟩ := stands.rightward rfl (Nat.le_refl (place + 1))
  let session : Session := { Session.start program options (Tape.blank 1) with
    engine := (start.afterCalls (place + 1)).engine }
  have belongs : Over program session := .running [] 1 (place + 1) rfl
  obtain ⟨tokens, -, made⟩ := build_eq_ok_iff.mp built
  obtain ⟨block, -, rfl⟩ := Program.ofTokens_eq_ok_iff.mp made
  have begins : Machine.Begins (block.instructions 0) start :=
    .load (Program.ofBlock block tokens _) [] 1
  have running := stands'.running (by simp)
  obtain ⟨instruction, last⟩ := (begins.placed_afterCalls place).exists_lastInstruction running
  have shown : session.observe ≠ none := observe_ne_none last
  obtain ⟨observation, observed⟩ := Option.ne_none_iff_exists'.mp shown
  refine ⟨_, session, observation, built, belongs, rfl, observed, ?_⟩
  rw [pointer_of_observe observed]
  exact (congrArg Machine.Data.pointer stands''.data_eq).trans pointer

/-- Behind a thousand and five moves to the right the mark does not stand above the address of the
cell at the pointer, which begins further to the right. -/
theorem not_aligned_far :
    ∃ program session observation,
      build (String.ofList (List.replicate 1005 '>')) = .ok program ∧ Over program session ∧
        session.options = {} ∧ session.observe = some observation ∧ observation.pointer = 1005 ∧
        ¬ observation.Aligned session.cellValue ∧
        ∃ place, observation.addressRow.fields[place]? = some (Text.rightAligned 3 1005) ∧
          observation.pointerRow.text.toList[(observation.pointerRow.columns place).1 + 1]? =
            some '^' ∧
          (observation.pointerRow.columns place).1 + 1 <
            (observation.addressRow.columns place).1 := by
  obtain ⟨program, session, observation, built, belongs, defaults, observed, far⟩ :=
    exists_view_rightward {} 1004
  obtain ⟨tokens, -, made⟩ := build_eq_ok_iff.mp built
  obtain ⟨block, placed⟩ := belongs.exists_placed made
  obtain ⟨framed, -⟩ := framed_of_observe (placed {}).onTape (by simp [defaults]) observed
  refine ⟨program, session, observation, built, belongs, defaults, observed, far,
    fun aligned => ?_, ?_⟩
  · have near := (framed.aligned_iff aligned.toRendered).mp aligned
    rw [far, defaults] at near
    exact absurd near (by decide)
  · obtain ⟨place, inside, here, marked⟩ := framed.exists_mark
    have start : observation.windowStart = 997 := by rw [framed.start, far, defaults]; rfl
    have long : 1000 ≤ observation.windowStart + (3 : Nat) := by rw [start]; decide
    have shifted := framed.addressRow_columns_ge long inside
    have address := Observation.addressRow_field inside
    rw [here, far] at address
    exact ⟨place, address, (marked _).mpr rfl, by omega⟩

end Session
end Brainfuck
