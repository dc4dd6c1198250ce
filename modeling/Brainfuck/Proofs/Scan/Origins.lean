import Brainfuck.Proofs.Scan.Items

namespace Brainfuck.Scan

/-- The tokens of pieces one after another. -/
def tokensOf (offset : Nat) : List Piece → List Token
  | [] => []
  | piece :: rest => piece.tokens offset ++ tokensOf (offset + piece.chars.length) rest

/-- A token stands outside of all definitions, or in a body. -/
def Holds (scan : Scan) (token : Token) : Prop :=
  token ∈ scan.tokens ∨ ∃ definition ∈ scan.table.definitions, token ∈ definition.body

/-- A token has been read. -/
def State.Holds (state : State) (token : Token) : Prop :=
  token ∈ state.tokens.toList ∨
    (∃ definition ∈ state.definitions, token ∈ definition.body) ∨
    ∃ opening ∈ state.opening, token ∈ opening.body.toList

variable {state opened : State} {opening : Opening} {offset : Nat} {name : String}
  {token call : Token} {tokens : List Token} {items : List Item} {scan : Scan}
  {definition : Macro.Definition}

theorem tokensOf_append (offset : Nat) (first second : List Piece) :
    tokensOf offset (first ++ second) =
      tokensOf offset first ++ tokensOf (offset + (spell (first.map .piece)).length) second := by
  induction first generalizing offset with
  | nil => rfl
  | cons piece first ih => simp [tokensOf, ih, Item.chars, Nat.add_assoc]

namespace State

theorem define_eq_ok_iff :
    state.define name offset = .ok opened ↔
      name ∉ state.definitions.toList.map (·.name) ∧
        opened = { state with opening := some { name, offset } } := by
  have known : state.definitions.any (·.name == name) = true ↔
      name ∈ state.definitions.toList.map (·.name) := by
    rw [← Array.any_toList, List.any_eq_true]
    simp
  unfold define
  split
  · next present => simp [known.mp present]
  · next absent => simp [mt known.mpr absent, eq_comm]

theorem emit_emit (state : State) (tokens more : List Token) :
    (state.emit tokens).emit more = state.emit (tokens ++ more) := by
  obtain ⟨read, definitions, opening⟩ := state
  cases opening <;> simp [emit, ← Array.toList_inj]

theorem definitions_emit (state : State) (tokens : List Token) :
    (state.emit tokens).definitions = state.definitions := by
  unfold emit
  split <;> rfl

theorem opening_emit (state : State) (tokens : List Token) :
    (state.emit tokens).opening =
      state.opening.map fun opening => { opening with body := opening.body ++ tokens } := by
  unfold emit
  split <;> simp [*]

theorem holds_emit : (state.emit tokens).Holds token ↔ state.Holds token ∨ token ∈ tokens := by
  unfold Holds emit
  split
  · next outside =>
    simp only [outside, Array.toList_appendList, List.mem_append]
    grind
  · next opening inside =>
    simp only [inside, Option.mem_def, Option.some.injEq, exists_eq_left', Array.toList_appendList,
      List.mem_append]
    grind

theorem holds_close (inside : state.opening = some opening) :
    (state.close opening).Holds token ↔ state.Holds token := by
  simp [Holds, close, inside, or_and_right, exists_or]

end State

theorem reads_pieces_iff (inner : List Piece) :
    Reads state offset (inner.map .piece ++ items) scan ↔
      Reads (state.emit (tokensOf offset inner)) (offset + (spell (inner.map .piece)).length)
        items scan := by
  induction inner generalizing state offset with
  | nil => simp [tokensOf, emit_nil]
  | cons piece inner ih =>
    have sum : offset + piece.chars.length + (spell (inner.map .piece)).length =
        offset + (spell ((piece :: inner).map .piece)).length := by
      simp [Item.chars, Nat.add_assoc]
    rw [tokensOf, ← State.emit_emit, ← sum, ← ih]
    constructor
    · intro reads
      cases reads with
      | piece rest => exact rest
    · exact .piece

/-- A call that was read stands among the items that were read. -/
theorem Reads.exists_call (reads : Reads state offset items scan) (held : scan.Holds call)
    (called : call.isCall = true) :
    state.Holds call ∨ ∃ before name after, items = before ++ .piece (.call name) :: after ∧
      call = .callOf name.text (offset + (spell before).length : Nat) := by
  induction reads with
  | done outside => exact .inl (by simpa [State.Holds, Holds, outside] using held)
  | @piece state offset content items scan _ ih =>
    rcases ih held with before | ⟨before, name, after, rfl, same⟩
    · rcases State.holds_emit.mp before with before | here
      · exact .inl before
      · cases content with
        | blanks run => cases here
        | call name =>
          cases List.mem_singleton.mp here
          exact .inr ⟨[], name, items, rfl, rfl⟩
        | word run =>
          obtain ⟨place, -, made⟩ := List.mem_filterMap.mp here
          obtain ⟨symbol, -, rfl⟩ := Option.map_eq_some_iff.mp made
          cases called
    · refine .inr ⟨.piece content :: before, name, after, rfl, ?_⟩
      simpa [Item.chars, Nat.add_assoc] using same
  | @opening state opened offset name gap items scan outside fresh _ ih =>
    obtain ⟨-, rfl⟩ := State.define_eq_ok_iff.mp fresh
    rcases ih held with before | ⟨before, name, after, rfl, same⟩
    · exact .inl (by simpa [State.Holds, outside] using before)
    · refine .inr ⟨.opening _ gap :: before, name, after, rfl, ?_⟩
      simpa [Nat.add_assoc] using same
  | closing inside _ ih =>
    rcases ih held with before | ⟨before, name, after, rfl, same⟩
    · exact .inl ((State.holds_close inside).mp before)
    · refine .inr ⟨.closing :: before, name, after, rfl, ?_⟩
      simpa [Item.chars, Nat.add_assoc, Nat.add_comm 1] using same

theorem Reads.calledAmong (reads : Reads {} 0 items scan) (held : scan.Holds call)
    (called : call.isCall = true) :
    ∃ before name after, items = before ++ .piece (.call name) :: after ∧
      call = .callOf name.text (spell before).length := by
  have among := (reads.exists_call held called).resolve_left (by simp [State.Holds])
  simpa using among

/-- The items of a definition stand among items, and this is what they say. -/
def DefinedAmong (definition : Macro.Definition) (offset : Nat) (items : List Item) : Prop :=
  ∃ before name gap inner after,
    items = before ++ .opening name gap :: (inner.map .piece ++ .closing :: after) ∧
      definition = ⟨name.text, tokensOf (offset + (spell before).length +
        (Item.opening name gap).chars.length) inner, (offset + (spell before).length : Nat)⟩

theorem DefinedAmong.cons {item : Item}
    (defined : DefinedAmong definition (offset + item.chars.length) items) :
    DefinedAmong definition offset (item :: items) := by
  obtain ⟨before, name, gap, inner, after, rfl, rfl⟩ := defined
  refine ⟨item :: before, name, gap, inner, after, rfl, ?_⟩
  simp [Nat.add_assoc]

/-- A definition that was read was known before, or was being read, or stands among the
items that were read. -/
theorem Reads.exists_definition (reads : Reads state offset items scan)
    (member : definition ∈ scan.table.definitions) :
    definition ∈ state.definitions ∨
      (∃ opening inner after, state.opening = some opening ∧
        items = inner.map .piece ++ .closing :: after ∧
        definition = ⟨opening.name, opening.body.toList ++ tokensOf offset inner, opening.offset⟩) ∨
      DefinedAmong definition offset items := by
  induction reads with
  | done outside => exact .inl (by simpa using member)
  | @piece state offset content items scan _ ih =>
    rcases ih member with before | ⟨opening, inner, after, inside, rfl, rfl⟩ | defined
    · exact .inl (by rwa [State.definitions_emit] at before)
    · rw [State.opening_emit] at inside
      obtain ⟨outer, held, rfl⟩ := Option.map_eq_some_iff.mp inside
      refine .inr (.inl ⟨outer, content :: inner, after, held, rfl, ?_⟩)
      simp [tokensOf]
    · exact .inr (.inr defined.cons)
  | @opening state opened offset name gap items scan outside fresh _ ih =>
    obtain ⟨-, rfl⟩ := State.define_eq_ok_iff.mp fresh
    rcases ih member with before | ⟨opening, inner, after, inside, rfl, rfl⟩ | defined
    · exact .inl before
    · cases inside
      exact .inr (.inr ⟨[], name, gap, inner, after, rfl, by simp⟩)
    · exact .inr (.inr defined.cons)
  | @closing state opening offset items scan inside _ ih =>
    rcases ih member with before | ⟨opening, inner, after, inside, rfl, rfl⟩ | defined
    · rcases Array.mem_push.mp before with before | rfl
      · exact .inl before
      · exact .inr (.inl ⟨opening, [], items, inside, rfl, by simp [tokensOf]⟩)
    · cases inside
    · exact .inr (.inr defined.cons)

theorem Reads.definedAmong (reads : Reads {} 0 items scan)
    (member : definition ∈ scan.table.definitions) : DefinedAmong definition 0 items := by
  rcases reads.exists_definition member with known | ⟨opening, inner, after, inside, -⟩ | defined
  · simp at known
  · cases inside
  · exact defined

/-- The names that are defined are distinct, the one that is being defined included. -/
def State.Distinct (state : State) : Prop :=
  (state.opening.toList.map (·.name) ++ state.definitions.toList.map (·.name)).Nodup

theorem Reads.names_nodup (reads : Reads state offset items scan) (distinct : state.Distinct) :
    scan.table.names.Nodup := by
  induction reads with
  | done outside => simpa [State.Distinct, outside, Macro.Table.names] using distinct
  | @piece state offset content items scan _ ih =>
    refine ih ?_
    rw [State.Distinct, State.definitions_emit, State.opening_emit]
    cases inside : state.opening <;> simpa [State.Distinct, inside] using distinct
  | opening outside fresh _ ih =>
    obtain ⟨absent, rfl⟩ := State.define_eq_ok_iff.mp fresh
    refine ih ?_
    rw [State.Distinct, outside] at distinct
    exact List.nodup_cons.mpr ⟨absent, distinct⟩
  | closing inside _ ih =>
    refine ih ?_
    rw [State.Distinct, inside] at distinct
    have known := (List.perm_append_singleton _ _).nodup_iff.mpr distinct
    simpa [State.Distinct, State.close] using known

end Brainfuck.Scan
