import Brainfuck.Program
import Brainfuck.Proofs.Block

/-! The layout of a block: its instructions one after another, each bracket with the
index of its partner. A list of tokens makes a program exactly if its symbols are
those of a block, and the program is the layout of that block. -/

namespace Brainfuck

def Primitive.instruction : Primitive → Instruction
  | right => .move 1
  | left => .move (-1)
  | increment => .adjust 1
  | decrement => .adjust (-1)
  | output => .output
  | input => .input
  | breakpoint => .breakpoint

namespace Block

/-- The instructions of a block that begins at an index. -/
def instructions : Block → Nat → List Instruction
  | empty, _ => []
  | primitive first rest, base => first.instruction :: rest.instructions (base + 1)
  | loop body rest, base =>
    .jumpIfZero (base + body.size + 1 : Nat) ::
      (body.instructions (base + 1) ++ .jumpIfNonzero base ::
        rest.instructions (base + body.size + 2))

@[simp]
theorem length_instructions (block : Block) (base : Nat) :
    (block.instructions base).length = block.size := by
  induction block generalizing base with
  | empty => rfl
  | primitive first rest ih => simp [instructions, size, ih]
  | loop body rest ihBody ihRest =>
    simp only [instructions, size, List.length_cons, List.length_append, ihBody, ihRest]
    omega

theorem map_symbol (block : Block) (base : Nat) :
    (block.instructions base).map Instruction.symbol = block.symbols.map .ok := by
  induction block generalizing base with
  | empty => rfl
  | primitive first rest ih =>
    rw [instructions, List.map_cons, ih]
    cases first <;> rfl
  | loop body rest ihBody ihRest =>
    rw [instructions, List.map_cons, List.map_append, ihBody, List.map_cons, ihRest]
    simp [symbols, Instruction.symbol]

/-- The instructions of a block stand in a code from an index on. -/
def Fits (code : List Instruction) : Nat → Block → Prop
  | _, empty => True
  | base, primitive first rest => code[base]? = some first.instruction ∧ Fits code (base + 1) rest
  | base, loop body rest =>
    code[base]? = some (.jumpIfZero (base + body.size + 1 : Nat)) ∧ Fits code (base + 1) body ∧
      code[base + body.size + 1]? = some (.jumpIfNonzero base) ∧
      Fits code (base + body.size + 2) rest

theorem fits_append (block : Block) (before after : List Instruction) :
    Fits (before ++ block.instructions before.length ++ after) before.length block := by
  induction block generalizing before after with
  | empty => trivial
  | primitive first rest ih =>
    refine ⟨by simp [instructions], ?_⟩
    have located := ih (before ++ [first.instruction]) after
    simpa [instructions] using located
  | loop body rest ihBody ihRest =>
    have inner := ihBody (before ++ [.jumpIfZero (before.length + body.size + 1 : Nat)])
      (.jumpIfNonzero before.length :: rest.instructions (before.length + body.size + 2) ++ after)
    have outer := ihRest (before ++ .jumpIfZero (before.length + body.size + 1 : Nat) ::
      (body.instructions (before.length + 1) ++ [.jumpIfNonzero before.length])) after
    have place : before.length + (body.size + 1 + 1) = before.length + body.size + 2 := by omega
    refine ⟨by simp [instructions], by simpa [instructions] using inner, ?_,
      by simpa [instructions, place] using outer⟩
    have index : before.length + body.size + 1 = before.length + (body.size + 1) := by omega
    simp [instructions, index]

theorem fits_instructions (block : Block) : Fits (block.instructions 0) 0 block := by
  simpa using fits_append block [] []

end Block

namespace Program

/-- The tokens are symbols, and these are the symbols. -/
def Spells (tokens : List Token) (symbols : List Symbol) : Prop :=
  tokens.map Token.glyph = symbols.map Glyph.symbol

theorem Spells.unique {tokens : List Token} {symbols symbols' : List Symbol}
    (spelled : Spells tokens symbols) (spelled' : Spells tokens symbols') : symbols = symbols' :=
  (List.map_inj_right fun _ _ => Glyph.symbol.inj).mp (spelled.symm.trans spelled')

theorem Spells.length_eq {tokens : List Token} {symbols : List Symbol}
    (spelled : Spells tokens symbols) : tokens.length = symbols.length := by
  simpa using congrArg List.length spelled

theorem Spells.cons {tokens : List Token} {symbol : Symbol} {symbols : List Symbol}
    (spelled : Spells tokens (symbol :: symbols)) :
    ∃ token rest, tokens = token :: rest ∧ token.glyph = .symbol symbol ∧ Spells rest symbols :=
  List.map_eq_cons_iff.mp spelled

theorem Spells.append {tokens : List Token} {first second : List Symbol}
    (spelled : Spells tokens (first ++ second)) :
    ∃ front rest, tokens = front ++ rest ∧ Spells front first ∧ Spells rest second := by
  rw [Spells, List.map_append] at spelled
  exact List.map_eq_append_iff.mp spelled

namespace Assembly

variable {source : String} {assembly : Assembly} {token : Token}

theorem addToken_symbol {symbol : Symbol} (glyph : token.glyph = .symbol symbol) :
    addToken source assembly token = assembly.addSymbol source symbol token.offset := by
  simp [addToken, glyph]

theorem addSymbol_primitive (first : Primitive) (offset : Int) :
    assembly.addSymbol source first.symbol offset =
      .ok (assembly.push first.instruction offset) := by
  cases first <;> rfl

/-- The assembly after a loop start: its target is not known yet. -/
def enterLoop (assembly : Assembly) (offset : Int) : Assembly :=
  { assembly.push (.jumpIfZero (-1)) offset with
    pending := (assembly.code.size, offset) :: assembly.pending }

/-- The assembly after a loop end that closes the loop start at an index. -/
def leaveLoop (assembly : Assembly) (start : Nat) (outer : List (Nat × Int)) (offset : Int) :
    Assembly :=
  { assembly with
    code := assembly.code.setIfInBounds start (.jumpIfZero assembly.code.size)
    pending := outer }.push (.jumpIfNonzero start) offset

theorem addSymbol_loopStart (offset : Int) :
    assembly.addSymbol source .loopStart offset = .ok (assembly.enterLoop offset) := rfl

theorem addSymbol_loopEnd {start : Nat} {opened offset : Int} {outer : List (Nat × Int)}
    (pending : assembly.pending = (start, opened) :: outer) :
    assembly.addSymbol source .loopEnd offset = .ok (assembly.leaveLoop start outer offset) := by
  simp [addSymbol, pending, leaveLoop]

theorem addToken_eq_ok {after : Assembly} (added : addToken source assembly token = .ok after) :
    ∃ symbol, token.glyph = .symbol symbol := by
  unfold addToken at added
  split at added
  · cases added
  · cases added
  · next symbol glyph => exact ⟨symbol, glyph⟩

/-- Tokens that spell a block add its instructions, and close what they open. -/
theorem fold_block (source : String) (block : Block) {tokens : List Token}
    (spelled : Spells tokens block.symbols) (assembly : Assembly) :
    ∃ after, tokens.foldlM (addToken source) assembly = .ok after ∧
      after.code.toList = assembly.code.toList ++ block.instructions assembly.code.size ∧
      after.offsets.toList = assembly.offsets.toList ++ tokens.map (·.offset) ∧
      after.pending = assembly.pending := by
  induction block generalizing tokens assembly with
  | empty =>
    cases List.map_eq_nil_iff.mp spelled
    exact ⟨assembly, rfl, by simp [Block.instructions], by simp, rfl⟩
  | primitive first rest ih =>
    obtain ⟨token, others, rfl, glyph, spelled⟩ := spelled.cons
    obtain ⟨after, folded, code, offsets, pending⟩ :=
      ih spelled (assembly.push first.instruction token.offset)
    refine ⟨after, ?_, ?_, ?_, pending⟩
    · rw [List.foldlM_cons, addToken_symbol glyph, addSymbol_primitive]
      exact folded
    · simp [code, push, Block.instructions]
    · simp [offsets, push]
  | loop body rest ihBody ihRest =>
    obtain ⟨opening, others, rfl, openingGlyph, spelled⟩ := spelled.cons
    obtain ⟨inner, others, rfl, innerSpelled, spelled⟩ := spelled.append
    obtain ⟨closing, outer, rfl, closingGlyph, outerSpelled⟩ := spelled.cons
    obtain ⟨middle, innerFolded, innerCode, innerOffsets, innerPending⟩ :=
      ihBody innerSpelled (assembly.enterLoop opening.offset)
    have size : middle.code.size = assembly.code.size + body.size + 1 := by
      rw [← Array.length_toList, innerCode]
      simp [enterLoop, push]
      omega
    have code : (middle.leaveLoop assembly.code.size assembly.pending closing.offset).code.toList =
        assembly.code.toList ++ .jumpIfZero (assembly.code.size + body.size + 1 : Nat) ::
          (body.instructions (assembly.code.size + 1) ++ [.jumpIfNonzero assembly.code.size]) := by
      simp [leaveLoop, push, innerCode, enterLoop, size]
    obtain ⟨after, outerFolded, outerCode, outerOffsets, outerPending⟩ :=
      ihRest outerSpelled (middle.leaveLoop assembly.code.size assembly.pending closing.offset)
    refine ⟨after, ?_, ?_, ?_, outerPending⟩
    · rw [List.foldlM_cons, addToken_symbol openingGlyph, addSymbol_loopStart]
      change (inner ++ closing :: outer).foldlM (addToken source)
        (assembly.enterLoop opening.offset) = _
      rw [List.foldlM_append, innerFolded]
      change (closing :: outer).foldlM (addToken source) middle = _
      rw [List.foldlM_cons, addToken_symbol closingGlyph, addSymbol_loopEnd innerPending]
      exact outerFolded
    · have length :
          (middle.leaveLoop assembly.code.size assembly.pending closing.offset).code.size =
            assembly.code.size + body.size + 2 := by simp [leaveLoop, push, size]
      rw [outerCode, code, length]
      simp [Block.instructions]
    · simp [outerOffsets, leaveLoop, push, innerOffsets, enterLoop]

/-- Blocks behind loop starts are added without an error. -/
theorem fold_opened (source : String) {blocks : List Block} {tokens : List Token}
    (spelled : Spells tokens (blocks.flatMap (.loopStart :: ·.symbols)))
    (assembly : Assembly) : ∃ after, tokens.foldlM (addToken source) assembly = .ok after := by
  induction blocks generalizing tokens assembly with
  | nil =>
    cases List.map_eq_nil_iff.mp spelled
    exact ⟨assembly, rfl⟩
  | cons block blocks ih =>
    rw [List.flatMap_cons, List.cons_append] at spelled
    obtain ⟨opening, others, rfl, glyph, spelled⟩ := spelled.cons
    obtain ⟨inner, outer, rfl, innerSpelled, outerSpelled⟩ := spelled.append
    obtain ⟨middle, innerFolded, -, -, -⟩ :=
      fold_block source block innerSpelled (assembly.enterLoop opening.offset)
    obtain ⟨after, outerFolded⟩ := ih outerSpelled middle
    refine ⟨after, ?_⟩
    rw [List.foldlM_cons, addToken_symbol glyph, addSymbol_loopStart]
    change (inner ++ outer).foldlM (addToken source) (assembly.enterLoop opening.offset) = _
    rw [List.foldlM_append, innerFolded]
    exact outerFolded

theorem size_of_addToken {after : Assembly} (added : addToken source assembly token = .ok after) :
    after.code.size = assembly.code.size + 1 := by
  obtain ⟨symbol, glyph⟩ := addToken_eq_ok added
  rw [addToken_symbol glyph] at added
  cases symbol with
  | loopEnd =>
    rw [addSymbol] at added
    split at added
    · cases added
    · cases added
      simp [push]
  | _ =>
    cases added
    exact Array.size_push _

theorem size_of_fold {tokens : List Token} {after : Assembly}
    (folded : tokens.foldlM (addToken source) assembly = .ok after) :
    after.code.size = assembly.code.size + tokens.length := by
  induction tokens generalizing assembly with
  | nil =>
    cases folded
    rfl
  | cons token rest ih =>
    rw [List.foldlM_cons] at folded
    cases added : addToken source assembly token with
    | error fault => rw [added] at folded; cases folded
    | ok next =>
      rw [added] at folded
      rw [ih folded, size_of_addToken added, List.length_cons]
      omega

theorem spells_of_fold {tokens : List Token} {assembly after : Assembly}
    (folded : tokens.foldlM (addToken source) assembly = .ok after) :
    ∃ symbols, Spells tokens symbols := by
  induction tokens generalizing assembly with
  | nil => exact ⟨[], rfl⟩
  | cons token rest ih =>
    rw [List.foldlM_cons] at folded
    cases added : addToken source assembly token with
    | error fault => rw [added] at folded; cases folded
    | ok next =>
      rw [added] at folded
      obtain ⟨symbol, glyph⟩ := addToken_eq_ok added
      obtain ⟨symbols, spelled⟩ := ih folded
      exact ⟨symbol :: symbols, by simp [Spells, glyph, ← spelled.symm]⟩

theorem addToken_stray (source : String) (glyph : token.glyph = .symbol .loopEnd)
    (pending : assembly.pending = []) :
    addToken source assembly token =
      .error (reject source (.unmatchedLoopEnd assembly.code.size) token.offset) := by
  rw [addToken_symbol glyph, addSymbol]
  simp [pending]

end Assembly

theorem finish_eq_ok_iff {assembly : Assembly} {source : String} {program : Program} :
    assembly.finish source = .ok program ↔
      assembly.pending = [] ∧ program = ⟨assembly.code, assembly.offsets, source⟩ := by
  unfold Assembly.finish
  cases assembly.pending with
  | nil => simp [eq_comm]
  | cons opened outer => simp

/-- The program that a block is laid out as. -/
def ofBlock (block : Block) (tokens : List Token) (source : String) : Program :=
  ⟨(block.instructions 0).toArray, (tokens.map (·.offset)).toArray, source⟩

theorem ofTokens_of_spells {block : Block} {tokens : List Token} (source : String)
    (spelled : Spells tokens block.symbols) :
    ofTokens tokens source = .ok (ofBlock block tokens source) := by
  obtain ⟨after, folded, code, offsets, pending⟩ :=
    Assembly.fold_block source block spelled {}
  rw [ofTokens, folded]
  refine finish_eq_ok_iff.mpr ⟨pending, ?_⟩
  simp only [ofBlock, Program.mk.injEq, ← Array.toList_inj]
  exact ⟨by simpa using code.symm, by simpa using offsets.symm, trivial⟩

/-- A loop end behind a block closes nothing. -/
theorem ofTokens_loopEnd {head : Block} {rest : List Symbol} {tokens : List Token}
    (source : String) (spelled : Spells tokens (head.symbols ++ .loopEnd :: rest)) :
    ∃ token, tokens[head.size]? = some token ∧ ofTokens tokens source =
      .error (Assembly.reject source (.unmatchedLoopEnd head.size) token.offset) := by
  obtain ⟨front, later, rfl, inside, spelled⟩ := spelled.append
  obtain ⟨token, others, rfl, glyph, -⟩ := spelled.cons
  obtain ⟨middle, folded, -, -, pending⟩ := Assembly.fold_block source head inside {}
  have size : middle.code.size = head.size := by
    rw [Assembly.size_of_fold folded, inside.length_eq, Block.length_symbols]
    exact Nat.zero_add _
  refine ⟨token, ?_, ?_⟩
  · rw [← Block.length_symbols, ← inside.length_eq]
    simp
  · have stray := Assembly.addToken_stray source glyph pending
    rw [size] at stray
    simp [ofTokens, folded, stray, bind, Except.bind]

/-- A loop start before the block that ends the tokens is not closed. -/
theorem ofTokens_loopStart {head last : Block} {others : List Block} {tokens : List Token}
    (source : String) (spelled : Spells tokens (head.symbols ++
      others.flatMap (.loopStart :: ·.symbols) ++ .loopStart :: last.symbols)) :
    ∃ token, tokens[(head.symbols ++ others.flatMap (.loopStart :: ·.symbols)).length]? =
        some token ∧
      ofTokens tokens source = .error (Assembly.reject source (.unmatchedLoopStart
        (head.symbols ++ others.flatMap (.loopStart :: ·.symbols)).length) token.offset) := by
  obtain ⟨front, later, rfl, before, spelled⟩ := spelled.append
  obtain ⟨token, rest, rfl, glyph, behind⟩ := spelled.cons
  rw [← before.length_eq]
  obtain ⟨first, second, rfl, inHead, inOthers⟩ := before.append
  obtain ⟨middle, folded, -, -, -⟩ := Assembly.fold_block source head inHead {}
  obtain ⟨opened, foldedOthers⟩ := Assembly.fold_opened source inOthers middle
  obtain ⟨final, foldedLast, -, -, pending⟩ :=
    Assembly.fold_block source last behind (opened.enterLoop token.offset)
  have size : opened.code.size = (first ++ second).length := by
    rw [Assembly.size_of_fold foldedOthers, Assembly.size_of_fold folded, List.length_append]
    simp
  refine ⟨token, by simp, ?_⟩
  have added : Assembly.addToken source opened token = .ok (opened.enterLoop token.offset) :=
    Assembly.addToken_symbol glyph
  have reached : ((first ++ second) ++ token :: rest).foldlM (Assembly.addToken source) {} =
      .ok final := by
    simp [folded, foldedOthers, added, foldedLast, bind, Except.bind]
  rw [ofTokens, reached, ← size]
  simp [bind, Except.bind, Assembly.finish, pending, Assembly.enterLoop]

/-- Tokens make a program exactly if they spell a block; it is laid out as that block. -/
theorem ofTokens_eq_ok_iff {tokens : List Token} {source : String} {program : Program} :
    ofTokens tokens source = .ok program ↔
      ∃ block : Block, Spells tokens block.symbols ∧ program = ofBlock block tokens source := by
  constructor
  · intro built
    cases folded : tokens.foldlM (Assembly.addToken source) {} with
    | error fault => rw [ofTokens, folded] at built; cases built
    | ok final =>
      obtain ⟨symbols, spelled⟩ := Assembly.spells_of_fold folded
      rcases Block.exists_or_unmatched symbols with ⟨block, rfl⟩ | ⟨head, rest, rfl⟩ |
        ⟨head, others, last, rfl⟩
      · have laid := ofTokens_of_spells source spelled
        exact ⟨block, spelled, Except.ok.inj (built.symm.trans laid)⟩
      · obtain ⟨token, -, rejected⟩ := ofTokens_loopEnd source spelled
        cases built.symm.trans rejected
      · obtain ⟨token, -, rejected⟩ := ofTokens_loopStart source spelled
        cases built.symm.trans rejected
  · rintro ⟨block, spelled, rfl⟩
    exact ofTokens_of_spells source spelled

theorem Spells.exists_ofTokens_iff {tokens : List Token} {symbols : List Symbol}
    (spelled : Spells tokens symbols) (source : String) :
    (∃ program, ofTokens tokens source = .ok program) ↔ Balanced symbols := by
  simp only [ofTokens_eq_ok_iff]
  constructor
  · rintro ⟨_, block, spelled', rfl⟩
    rw [spelled.unique spelled']
    exact block.balanced
  · intro balanced
    obtain ⟨block, same⟩ := balanced.exists_block
    exact ⟨_, block, same ▸ spelled, rfl⟩

end Program
end Brainfuck
