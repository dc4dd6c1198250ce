import Brainfuck.Proofs.Standing

namespace Brainfuck

namespace Block

/-- The block without its breakpoints. -/
def erase : Block → Block
  | empty => empty
  | primitive first rest => if first = .breakpoint then rest.erase else primitive first rest.erase
  | loop body rest => loop body.erase rest.erase

theorem symbols_erase (block : Block) :
    block.erase.symbols = block.symbols.filter (· ≠ .breakpoint) := by
  induction block with
  | empty => rfl
  | primitive first rest ih => cases first <;> simpa [erase, symbols, Primitive.symbol] using ih
  | loop body rest ihBody ihRest => simp [erase, symbols, ihBody, ihRest]

end Block

/-- The number of instructions before an index that are no breakpoints. -/
def keptBefore (code : List Instruction) (ip : Nat) : Nat :=
  (code.take ip).countP (· ≠ .breakpoint)

section keptBefore

variable {code : List Instruction} {ip : Nat} {instruction : Instruction}

theorem keptBefore_breakpoint (found : code[ip]? = some .breakpoint) :
    keptBefore code (ip + 1) = keptBefore code ip := by
  simp [keptBefore, List.take_add_one, found]

theorem keptBefore_kept (found : code[ip]? = some instruction) (kept : instruction ≠ .breakpoint) :
    keptBefore code (ip + 1) = keptBefore code ip + 1 := by
  simp [keptBefore, List.take_add_one, found, kept]

theorem keptBefore_mono {later : Nat} (order : ip ≤ later) :
    keptBefore code ip ≤ keptBefore code later :=
  (List.take_sublist_take_left order).countP_le

theorem keptBefore_add_count (within : ip ≤ code.length) :
    keptBefore code ip + (code.take ip).count .breakpoint = ip := by
  have parts := (code.take ip).length_eq_countP_add_countP (· ≠ .breakpoint)
  rw [List.length_take_of_le within] at parts
  have marks : (code.take ip).count .breakpoint =
      (code.take ip).countP (fun instruction => ¬ decide (instruction ≠ .breakpoint)) := by
    simp [List.count_eq_countP, BEq.beq]
  rw [keptBefore, marks, ← parts]

end keptBefore

theorem Primitive.instruction_eq_breakpoint_iff {first : Primitive} :
    first.instruction = .breakpoint ↔ first = .breakpoint := by
  cases first <;> simp [instruction]

/-- An instruction of a code and the one that it becomes when breakpoints are erased. -/
inductive Twin (code : List Instruction) : Instruction → Instruction → Prop where
  | primitive {first : Primitive} : Twin code first.instruction first.instruction
  | loopStart {partner : Nat} {bracket : Instruction} (found : code[partner]? = some bracket)
      (kept : bracket ≠ .breakpoint) :
      Twin code (.jumpIfZero partner) (.jumpIfZero (keptBefore code partner))
  | loopEnd {partner : Nat} {bracket : Instruction} (found : code[partner]? = some bracket)
      (kept : bracket ≠ .breakpoint) :
      Twin code (.jumpIfNonzero partner) (.jumpIfNonzero (keptBefore code partner))

namespace Block.Fits

variable {code erased : List Instruction} {base ip : Nat} {block : Block}

theorem keptBefore_add (fits : Fits code base block) :
    keptBefore code (base + block.size) = keptBefore code base + block.erase.size := by
  induction block generalizing base with
  | empty => rfl
  | primitive first rest ih =>
    obtain ⟨found, fits⟩ := fits
    have place : base + (rest.size + 1) = base + 1 + rest.size := by omega
    rw [size, place, ih fits]
    by_cases marked : first = .breakpoint
    · rw [erase, if_pos marked]
      rw [marked] at found
      rw [keptBefore_breakpoint found]
    · rw [erase, if_neg marked, keptBefore_kept found
        (mt Primitive.instruction_eq_breakpoint_iff.mp marked), size]
      omega
  | loop body rest ihBody ihRest =>
    obtain ⟨opening, inner, closing, outer⟩ := fits
    have place : base + (body.size + rest.size + 2) = base + body.size + 2 + rest.size := by omega
    have middle : base + body.size + 1 = base + 1 + body.size := by omega
    rw [size, place, ihRest outer, keptBefore_kept closing (by simp), middle, ihBody inner,
      keptBefore_kept opening (by simp), erase, size]
    omega

/-- Each instruction of a block is a breakpoint, or its twin stands where the erased
block has it. -/
theorem twin (fits : Fits code base block)
    (fits' : Fits erased (keptBefore code base) block.erase) (above : base ≤ ip)
    (below : ip < base + block.size) :
    code[ip]? = some .breakpoint ∨ ∃ instruction other, code[ip]? = some instruction ∧
      instruction ≠ .breakpoint ∧ erased[keptBefore code ip]? = some other ∧
      Twin code instruction other := by
  induction block generalizing base with
  | empty => simp only [size] at below; omega
  | primitive first rest ih =>
    obtain ⟨found, fits⟩ := fits
    have later : ip ≠ base → ip < base + 1 + rest.size := by
      intro; simp only [size] at below; omega
    by_cases marked : first = .breakpoint
    · rw [marked] at found
      rw [erase, if_pos marked, ← keptBefore_breakpoint found] at fits'
      by_cases here : ip = base
      · exact .inl (here ▸ found)
      · exact ih fits fits' (by omega) (later here)
    · have kept := mt Primitive.instruction_eq_breakpoint_iff.mp marked
      rw [erase, if_neg marked] at fits'
      obtain ⟨found', fits'⟩ := fits'
      by_cases here : ip = base
      · cases here
        exact .inr ⟨_, _, found, kept, found', .primitive⟩
      · rw [← keptBefore_kept found kept] at fits'
        exact ih fits fits' (by omega) (later here)
  | loop body rest ihBody ihRest =>
    obtain ⟨opening, inner, closing, outer⟩ := fits
    obtain ⟨opening', inner', closing', outer'⟩ := fits'
    have startKept := keptBefore_kept opening (by simp)
    have endKept : keptBefore code (base + body.size + 1) =
        keptBefore code base + body.erase.size + 1 := by
      have place : base + body.size + 1 = base + 1 + body.size := by omega
      rw [place, inner.keptBefore_add, startKept]
      omega
    have restKept : keptBefore code (base + body.size + 2) =
        keptBefore code base + body.erase.size + 2 := by
      rw [keptBefore_kept closing (by simp), endKept]
    by_cases atStart : ip = base
    · cases atStart
      rw [← endKept] at opening'
      exact .inr ⟨_, _, opening, by simp, opening', .loopStart closing (by simp)⟩
    · by_cases atEnd : ip = base + body.size + 1
      · cases atEnd
        rw [← endKept] at closing'
        exact .inr ⟨_, _, closing, by simp, closing', .loopEnd opening (by simp)⟩
      · by_cases within : ip < base + body.size + 1
        · exact ihBody inner (startKept ▸ inner') (by omega) (by omega)
        · refine ihRest outer (restKept ▸ outer') (by omega) ?_
          simp only [size] at below
          omega

end Block.Fits

theorem Machine.Data.act_primitive {data after : Machine.Data} {first : Primitive} {ip next : Int}
    (acts : data.act ip first.instruction = some (next, after)) :
    next = ip + 1 ∧ ∀ place, data.act place first.instruction = some (place + 1, after) := by
  cases first with
  | right | left =>
    simp only [Primitive.instruction, act] at acts ⊢
    split at acts
    · cases acts
    · next bound =>
      cases acts
      exact ⟨rfl, fun place => if_neg bound⟩
  | _ =>
    cases acts
    exact ⟨rfl, fun _ => rfl⟩

namespace Twin

variable {code : List Instruction} {instruction other : Instruction} {data after : Machine.Data}

theorem eq_of_move {delta : Int} (twin : Twin code (.move delta) other) : other = .move delta := by
  generalize moved : Instruction.move delta = instruction at twin
  cases twin with
  | primitive => rfl
  | loopStart => cases moved
  | loopEnd => cases moved

/-- Twins do the same to the data, and lead to matching indexes. -/
theorem act {ip next : Nat} (twin : Twin code instruction other)
    (found : code[ip]? = some instruction) (kept : instruction ≠ .breakpoint)
    (acts : data.act ip instruction = some ((next : Int), after)) :
    data.act (keptBefore code ip) other = some ((keptBefore code next : Int), after) := by
  have following := keptBefore_kept found kept
  cases twin with
  | primitive =>
    obtain ⟨place, same⟩ := Machine.Data.act_primitive acts
    have next : next = ip + 1 := by omega
    rw [same, next, following]
    rfl
  | @loopStart partner bracket foundPartner keptPartner =>
    have behind := keptBefore_kept foundPartner keptPartner
    simp only [Machine.Data.act, Option.some.injEq, Prod.mk.injEq] at acts ⊢
    obtain ⟨place, same⟩ := acts
    refine ⟨?_, same⟩
    by_cases zero : data.cell = 0
    · rw [if_pos zero] at place ⊢
      have next : next = partner + 1 := by omega
      rw [next, behind]
      rfl
    · rw [if_neg zero] at place ⊢
      have next : next = ip + 1 := by omega
      rw [next, following]
      rfl
  | @loopEnd partner bracket foundPartner keptPartner =>
    have behind := keptBefore_kept foundPartner keptPartner
    simp only [Machine.Data.act, Option.some.injEq, Prod.mk.injEq] at acts ⊢
    obtain ⟨place, same⟩ := acts
    refine ⟨?_, same⟩
    by_cases zero : data.cell = 0
    · rw [if_pos zero] at place ⊢
      have next : next = ip + 1 := by omega
      rw [next, following]
      rfl
    · rw [if_neg zero] at place ⊢
      have next : next = partner + 1 := by omega
      rw [next, behind]
      rfl

end Twin

end Brainfuck
