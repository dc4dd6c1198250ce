import Brainfuck.Proofs.Pairing

namespace Brainfuck

/-- The instructions of a program are those of symbols, and each bracket among them leads to the
bracket that it belongs to. -/
structure Program.PairsBrackets (program : Program) (symbols : List Symbol) : Prop where
  symbols_eq : program.instructions.toList.map Instruction.symbol = symbols.map .ok
  loopStart : ∀ index : Nat, symbols[index]? = some .loopStart → ∃ partner : Nat,
    program.instructions[index]? = some (.jumpIfZero partner) ∧
      IsLeast {later | Closes symbols index later} partner
  loopEnd : ∀ index : Nat, symbols[index]? = some .loopEnd → ∃ partner : Nat,
    program.instructions[index]? = some (.jumpIfNonzero partner) ∧
      IsGreatest {earlier | Closes symbols earlier index} partner
  /-- The table has an entry for each bracket, for nothing else, and no two for the same. -/
  brackets : ∀ index : Nat, (∃ target, (index, target) ∈ program.jumpTable) ↔
    symbols[index]? = some .loopStart ∨ symbols[index]? = some .loopEnd
  distinct : (program.jumpTable.map Prod.fst).Nodup
  /-- A target is another bracket that leads back. The loop start comes before the loop end. -/
  involution : ∀ (index : Nat) (target : Int), (index, target) ∈ program.jumpTable →
    ∃ partner : Nat, target = partner ∧ (partner, (index : Int)) ∈ program.jumpTable ∧
      (index < partner ∧ symbols[index]? = some .loopStart ∧ symbols[partner]? = some .loopEnd ∨
        partner < index ∧ symbols[index]? = some .loopEnd ∧
          symbols[partner]? = some .loopStart)
  nested : ∀ first last first' last' : Nat, first < last → first' < last' →
    (first, (last : Int)) ∈ program.jumpTable → (first', (last' : Int)) ∈ program.jumpTable →
      (first = first' ∧ last = last') ∨ last < first' ∨ last' < first ∨
        (first < first' ∧ last' < last) ∨ (first' < first ∧ last < last')

namespace Program

variable {program : Program} {block : Block} {tokens : List Token} {source : String}
  {index place first last first' last' : Nat} {target : Int} {symbols : List Symbol}

theorem mem_jumpTable_iff : (index, target) ∈ program.jumpTable ↔
    ∃ instruction, program.instructions[index]? = some instruction ∧
      instruction.target? = some target := by
  constructor
  · intro member
    obtain ⟨⟨instruction, place⟩, listed, found⟩ := List.mem_filterMap.mp member
    obtain ⟨target', leads, same⟩ := Option.map_eq_some_iff.mp found
    cases same
    refine ⟨instruction, ?_, leads⟩
    rw [← Array.getElem?_toList]
    exact List.mem_zipIdx_iff_getElem?.mp listed
  · intro entry
    obtain ⟨instruction, found, leads⟩ := entry
    rw [← Array.getElem?_toList] at found
    have listed : (instruction, index) ∈ program.instructions.toList.zipIdx :=
      List.mem_zipIdx_iff_getElem?.mpr found
    exact List.mem_filterMap.mpr ⟨_, listed, by simp [leads]⟩

theorem target_unique {target' : Int} (member : (index, target) ∈ program.jumpTable)
    (member' : (index, target') ∈ program.jumpTable) : target = target' := by
  obtain ⟨instruction, found, leads⟩ := mem_jumpTable_iff.mp member
  obtain ⟨instruction', found', leads'⟩ := mem_jumpTable_iff.mp member'
  cases found.symm.trans found'
  exact Option.some.inj (leads.symm.trans leads')

theorem jumpTable_pairwise (program : Program) :
    (program.jumpTable.map Prod.fst).Pairwise (· < ·) := by
  have places : (program.instructions.toList.zipIdx.map Prod.snd).Pairwise (· < ·) := by
    rw [List.zipIdx_map_snd]
    exact List.pairwise_lt_range' 1
  rw [List.pairwise_map]
  refine (List.pairwise_map.mp places).filterMap _ ?_
  intro first second before entry found entry' found'
  obtain ⟨_, -, rfl⟩ := Option.map_eq_some_iff.mp found
  obtain ⟨_, -, rfl⟩ := Option.map_eq_some_iff.mp found'
  exact before

theorem target?_of_symbol {instruction : Instruction} {symbol : Symbol}
    (spelled : instruction.symbol = .ok symbol) (leads : instruction.target? = some target) :
    symbol = .loopStart ∨ symbol = .loopEnd := by
  cases instruction with
  | jumpIfZero => exact .inl (Except.ok.inj spelled).symm
  | jumpIfNonzero => exact .inr (Except.ok.inj spelled).symm
  | _ => cases leads

theorem getElem?_ofBlock (block : Block) (tokens : List Token) (source : String) (index : Nat) :
    (ofBlock block tokens source).instructions[index]? = (block.instructions 0)[index]? := by
  simp [ofBlock]

theorem bracket_of_mem (member : (index, target) ∈ (ofBlock block tokens source).jumpTable) :
    block.symbols[index]? = some .loopStart ∨ block.symbols[index]? = some .loopEnd := by
  obtain ⟨instruction, found, leads⟩ := mem_jumpTable_iff.mp member
  rw [getElem?_ofBlock] at found
  have spelled := congrArg (·[index]?) (block.map_symbol 0)
  simp only [List.getElem?_map, found, Option.map_some] at spelled
  obtain ⟨symbol, read, same⟩ := Option.map_eq_some_iff.mp spelled.symm
  rw [read]
  rcases target?_of_symbol same.symm leads with rfl | rfl
  · exact .inl rfl
  · exact .inr rfl

/-- The table of a layout leads from each of two partners to the other. -/
theorem mem_jumpTable_ofBlock :
    (index, target) ∈ (ofBlock block tokens source).jumpTable ↔
      ∃ first last : Nat, block.Partners 0 first last ∧
        (index = first ∧ target = last ∨ index = last ∧ target = first) := by
  have entry {first last : Nat} (partners : block.Partners 0 first last) :
      (first, (last : Int)) ∈ (ofBlock block tokens source).jumpTable ∧
        (last, (first : Int)) ∈ (ofBlock block tokens source).jumpTable := by
    have start := partners.start
    have stop := partners.stop
    rw [Nat.zero_add] at start stop
    rw [← getElem?_ofBlock block tokens source] at start stop
    exact ⟨mem_jumpTable_iff.mpr ⟨_, start, rfl⟩, mem_jumpTable_iff.mpr ⟨_, stop, rfl⟩⟩
  constructor
  · intro member
    obtain ⟨first, last, partners, same⟩ := block.exists_partners 0 index (bracket_of_mem member)
    refine ⟨first, last, partners, ?_⟩
    rcases same with rfl | rfl
    · exact .inl ⟨rfl, target_unique member (entry partners).1⟩
    · exact .inr ⟨rfl, target_unique member (entry partners).2⟩
  · intro held
    obtain ⟨first, last, partners, ⟨rfl, rfl⟩ | ⟨rfl, rfl⟩⟩ := held
    · exact (entry partners).1
    · exact (entry partners).2

theorem pairsBrackets_ofBlock (block : Block) (tokens : List Token) (source : String) :
    (ofBlock block tokens source).PairsBrackets block.symbols where
  symbols_eq := block.map_symbol 0
  loopStart index found := by
    obtain ⟨first, last, partners, rfl | rfl⟩ := block.exists_partners 0 index (.inl found)
    · refine ⟨last, ?_, partners.paired.isLeast⟩
      rw [getElem?_ofBlock, partners.start, Nat.zero_add]
    · cases partners.paired.closes.symm.trans found
  loopEnd index found := by
    obtain ⟨first, last, partners, rfl | rfl⟩ := block.exists_partners 0 index (.inr found)
    · cases partners.paired.opens.symm.trans found
    · refine ⟨first, ?_, partners.paired.isGreatest⟩
      rw [getElem?_ofBlock, partners.stop, Nat.zero_add]
  brackets index := by
    constructor
    · intro listed
      obtain ⟨target, member⟩ := listed
      exact bracket_of_mem member
    · intro bracket
      obtain ⟨first, last, partners, rfl | rfl⟩ := block.exists_partners 0 index bracket
      · exact ⟨last, mem_jumpTable_ofBlock.mpr ⟨index, last, partners, .inl ⟨rfl, rfl⟩⟩⟩
      · exact ⟨first, mem_jumpTable_ofBlock.mpr ⟨first, index, partners, .inr ⟨rfl, rfl⟩⟩⟩
  distinct := (jumpTable_pairwise _).imp Nat.ne_of_lt
  involution index target member := by
    obtain ⟨first, last, partners, ⟨rfl, rfl⟩ | ⟨rfl, rfl⟩⟩ := mem_jumpTable_ofBlock.mp member
    · exact ⟨last, rfl, mem_jumpTable_ofBlock.mpr ⟨index, last, partners, .inr ⟨rfl, rfl⟩⟩,
        .inl ⟨partners.paired.lt, partners.paired.opens, partners.paired.closes⟩⟩
    · exact ⟨first, rfl, mem_jumpTable_ofBlock.mpr ⟨first, index, partners, .inl ⟨rfl, rfl⟩⟩,
        .inr ⟨partners.paired.lt, partners.paired.closes, partners.paired.opens⟩⟩
  nested first last first' last' before before' member member' := by
    have forward {first last : Nat} (before : first < last)
        (member : (first, (last : Int)) ∈ (ofBlock block tokens source).jumpTable) :
        Paired block.symbols first last := by
      obtain ⟨_, _, partners, ⟨rfl, same⟩ | ⟨rfl, same⟩⟩ := mem_jumpTable_ofBlock.mp member
      · cases Int.ofNat.inj same
        exact partners.paired
      · have behind := partners.paired.lt
        omega
    exact (forward before member).nested_or_apart (forward before' member')

end Program

/-- Tokens that are symbols make a program exactly if their brackets are balanced. It has one
instruction for each token, and each bracket leads to the one it belongs to. -/
theorem ofTokens_pairs_brackets {tokens : List Token} {symbols : List Symbol}
    (spelled : Program.Spells tokens symbols) (source : String) :
    ((∃ program, Program.ofTokens tokens source = .ok program) ↔ Balanced symbols) ∧
      ∀ program, Program.ofTokens tokens source = .ok program →
        program.offsets.toList = tokens.map (·.offset) ∧ program.PairsBrackets symbols := by
  refine ⟨spelled.exists_ofTokens_iff source, ?_⟩
  intro program built
  obtain ⟨block, spelled', rfl⟩ := Program.ofTokens_eq_ok_iff.mp built
  cases spelled.unique spelled'
  exact ⟨rfl, Program.pairsBrackets_ofBlock block tokens source⟩

/-- Loops inside one another and one after another. -/
theorem ofTokens_pairs_brackets_nested :
    let tokens : List Token := [.ofSymbol .loopStart 0, .ofSymbol .loopStart 1,
      .ofSymbol .loopEnd 2, .ofSymbol .breakpoint 3, .ofSymbol .loopEnd 4, .ofSymbol .loopStart 5,
      .ofSymbol .loopEnd 6]
    let symbols : List Symbol :=
      [.loopStart, .loopStart, .loopEnd, .breakpoint, .loopEnd, .loopStart, .loopEnd]
    Program.Spells tokens symbols ∧ Balanced symbols ∧
      ∃ program, Program.ofTokens tokens "[[]#][]" = .ok program ∧
        program.jumpTable = [(0, 4), (1, 2), (2, 1), (4, 0), (5, 6), (6, 5)] ∧
        program.offsets.toList = tokens.map (·.offset) ∧ program.PairsBrackets symbols := by
  intro tokens symbols
  have spelled : Program.Spells tokens symbols := rfl
  obtain ⟨succeeds, pairs⟩ := ofTokens_pairs_brackets spelled "[[]#][]"
  have built : Program.ofTokens tokens "[[]#][]" = .ok _ := rfl
  exact ⟨spelled, succeeds.mp ⟨_, built⟩, _, built, rfl, pairs _ built⟩

end Brainfuck
