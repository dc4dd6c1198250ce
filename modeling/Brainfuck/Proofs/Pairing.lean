import Mathlib.Order.Bounds.Basic
import Brainfuck.Proofs.Layout

/-! Brackets that belong together. The depth of a place is the number of loops that are open there.
From a loop start to its loop end the depth stays above that of the loop start, and behind the loop
end it is back there. In the layout of a block each bracket has the place of its partner as its
target. -/

namespace Brainfuck

/-- How many loops the first symbols leave open: their loop starts less their loop ends. -/
def depth (symbols : List Symbol) (place : Nat) : Int :=
  (symbols.take place).count .loopStart - (symbols.take place).count .loopEnd

/-- The second place comes behind the first, and from the one up to the other there are as many loop
starts as loop ends. -/
def Closes (symbols : List Symbol) (first last : Nat) : Prop :=
  first < last ∧ last < symbols.length ∧
    (symbols.extract first (last + 1)).count .loopStart =
      (symbols.extract first (last + 1)).count .loopEnd

/-- A loop start and its loop end: between them the depth does not come back to where it was. -/
structure Paired (symbols : List Symbol) (first last : Nat) : Prop where
  opens : symbols[first]? = some .loopStart
  closes : symbols[last]? = some .loopEnd
  lt : first < last
  level : depth symbols (last + 1) = depth symbols first
  above : ∀ place, first < place → place ≤ last → depth symbols first < depth symbols place

variable {symbols : List Symbol} {first last first' last' place : Nat} {block inner : Block}

theorem closes_iff : Closes symbols first last ↔
    first < last ∧ last < symbols.length ∧ depth symbols (last + 1) = depth symbols first := by
  have split (before : first < last) :
      symbols.take (last + 1) = symbols.take first ++ symbols.extract first (last + 1) := by
    rw [List.extract, ← List.take_add]
    congr 1
    omega
  refine and_congr_right fun before => and_congr_right fun _ => ?_
  rw [depth, depth, split before, List.count_append, List.count_append]
  omega

theorem depth_append (front rest : List Symbol) (place : Nat) :
    depth (front ++ rest) (front.length + place) = depth front front.length + depth rest place := by
  rw [depth, depth, depth, List.take_length_add_append, List.take_length, List.count_append,
    List.count_append]
  omega

theorem depth_append_left (rest : List Symbol) (inside : place ≤ symbols.length) :
    depth (symbols ++ rest) place = depth symbols place := by
  rw [depth, depth, List.take_append_of_le_length inside]

namespace Paired

theorem last_lt (paired : Paired symbols first last) : last < symbols.length :=
  (List.getElem?_eq_some_iff.mp paired.closes).1

/-- Brackets that belong together do so whatever stands around them. -/
theorem within (paired : Paired symbols first last) (front back : List Symbol) :
    Paired (front ++ symbols ++ back) (front.length + first) (front.length + last) := by
  have bound := paired.last_lt
  have before := paired.lt
  have moved (place : Nat) (inside : place ≤ symbols.length) :
      depth (front ++ symbols ++ back) (front.length + place) =
        depth front front.length + depth symbols place := by
    rw [List.append_assoc, depth_append, depth_append_left back inside]
  have same (place : Nat) (inside : place < symbols.length) :
      (front ++ symbols ++ back)[front.length + place]? = symbols[place]? := by
    rw [List.append_assoc, List.getElem?_append_right (Nat.le_add_right _ _),
      Nat.add_sub_cancel_left, List.getElem?_append_left inside]
  refine ⟨?_, ?_, by omega, ?_, ?_⟩
  · rw [same first (by omega)]
    exact paired.opens
  · rw [same last bound]
    exact paired.closes
  · rw [Nat.add_assoc, moved (last + 1) bound, moved first (by omega), paired.level]
  · intro place behind upTo
    obtain ⟨inside, rfl⟩ := Nat.exists_eq_add_of_le (Nat.le_of_lt (Nat.lt_of_le_of_lt
      (Nat.le_add_right front.length first) behind))
    have higher := paired.above inside (by omega) (by omega)
    rw [moved first (by omega), moved inside (by omega)]
    omega

theorem isLeast (paired : Paired symbols first last) :
    IsLeast {later | Closes symbols first later} last := by
  refine ⟨closes_iff.mpr ⟨paired.lt, paired.last_lt, paired.level⟩, ?_⟩
  intro later closes
  obtain ⟨behind, -, level⟩ := closes_iff.mp closes
  apply Nat.le_of_not_lt
  intro earlier
  have higher := paired.above (later + 1) (by omega) (by omega)
  omega

theorem isGreatest (paired : Paired symbols first last) :
    IsGreatest {earlier | Closes symbols earlier last} first := by
  refine ⟨closes_iff.mpr ⟨paired.lt, paired.last_lt, paired.level⟩, ?_⟩
  intro earlier closes
  obtain ⟨before, -, level⟩ := closes_iff.mp closes
  apply Nat.le_of_not_lt
  intro later
  have higher := paired.above earlier (by omega) (by omega)
  have same := paired.level
  omega

/-- Two loops are the same one, or stand one after the other, or one inside the other. -/
theorem nested_or_apart (paired : Paired symbols first last)
    (paired' : Paired symbols first' last') :
    (first = first' ∧ last = last') ∨ last < first' ∨ last' < first ∨
      (first < first' ∧ last' < last) ∨ (first' < first ∧ last < last') := by
  have inside {first last first' last' : Nat} (paired : Paired symbols first last)
      (paired' : Paired symbols first' last') (behind : first < first') (upTo : first' ≤ last) :
      last' < last := by
    apply Nat.lt_of_not_le
    intro beyond
    have level := paired.level
    have level' := paired'.level
    have deeper := paired.above first' behind upTo
    rcases Nat.lt_or_eq_of_le beyond with further | same
    · have higher := paired'.above (last + 1) (by omega) (by omega)
      omega
    · subst same
      omega
  rcases Nat.lt_trichotomy first first' with before | same | behind
  · by_cases apart : last < first'
    · exact .inr (.inl apart)
    · have within := inside paired paired' before (by omega)
      exact .inr (.inr (.inr (.inl ⟨before, within⟩)))
  · subst same
    exact .inl ⟨rfl, paired.isLeast.unique paired'.isLeast⟩
  · by_cases apart : last' < first
    · exact .inr (.inr (.inl apart))
    · have within := inside paired' paired behind (by omega)
      exact .inr (.inr (.inr (.inr ⟨behind, within⟩)))

end Paired

namespace Block

theorem depth_nonneg (block : Block) (place : Nat) : 0 ≤ depth block.symbols place := by
  have bound := block.count_take_symbols place
  rw [depth]
  omega

theorem depth_size (block : Block) : depth block.symbols block.size = 0 := by
  have total := block.count_symbols
  rw [depth, ← length_symbols, List.take_length]
  omega

theorem depth_loopStart (symbols : List Symbol) (place : Nat) :
    depth (.loopStart :: symbols) (place + 1) = depth symbols place + 1 := by
  simp [depth]
  omega

/-- A loop start with a block behind it belongs to the loop end behind the block. -/
theorem paired_loop (body : Block) (rest : List Symbol) :
    Paired (.loopStart :: (body.symbols ++ .loopEnd :: rest)) 0 (body.size + 1) := by
  have inside (place : Nat) (bound : place ≤ body.size) :
      depth (.loopStart :: (body.symbols ++ .loopEnd :: rest)) (place + 1) =
        depth body.symbols place + 1 := by
    rw [depth_loopStart, depth_append_left _ (by rw [length_symbols]; exact bound)]
  refine ⟨rfl, by simp, Nat.succ_pos _, ?_, ?_⟩
  · have behind := depth_append body.symbols (.loopEnd :: rest) 1
    rw [length_symbols, depth_size] at behind
    rw [depth_loopStart, behind]
    simp [depth]
  · intro place positive upTo
    obtain ⟨place, rfl⟩ := Nat.exists_eq_add_one.mpr positive
    have nonneg := body.depth_nonneg place
    rw [inside place (by omega)]
    simp [depth] at nonneg ⊢
    omega

/-- A loop start and its loop end, laid out with each other's place as their targets. -/
structure Partners (block : Block) (base first last : Nat) : Prop where
  paired : Paired block.symbols first last
  start : (block.instructions base)[first]? = some (.jumpIfZero (base + last : Nat))
  stop : (block.instructions base)[last]? = some (.jumpIfNonzero (base + first : Nat))

theorem Partners.within {base : Nat} (front back : List Symbol) (code code' : List Instruction)
    (partners : inner.Partners (base + front.length) first last)
    (symbols : block.symbols = front ++ inner.symbols ++ back)
    (instructions : block.instructions base =
      code ++ inner.instructions (base + front.length) ++ code')
    (length : code.length = front.length) :
    block.Partners base (front.length + first) (front.length + last) := by
  have paired := partners.paired.within front back
  have same (place : Nat) (inside : place < inner.size) :
      (block.instructions base)[front.length + place]? =
        (inner.instructions (base + front.length))[place]? := by
    have inside' : place < (inner.instructions (base + code.length)).length := by
      rw [length_instructions]
      exact inside
    rw [instructions, ← length, List.append_assoc,
      List.getElem?_append_right (Nat.le_add_right _ _), Nat.add_sub_cancel_left,
      List.getElem?_append_left inside']
  have before := partners.paired.lt
  have bound := partners.paired.last_lt
  rw [length_symbols] at bound
  refine ⟨symbols ▸ paired, ?_, ?_⟩
  · rw [same first (by omega), partners.start, Nat.add_assoc]
  · rw [same last bound, partners.stop, Nat.add_assoc]

theorem exists_partners (block : Block) (base place : Nat)
    (bracket : block.symbols[place]? = some .loopStart ∨ block.symbols[place]? = some .loopEnd) :
    ∃ first last, block.Partners base first last ∧ (place = first ∨ place = last) := by
  induction block generalizing base place with
  | empty => simp [symbols] at bracket
  | primitive first rest ih =>
    cases place with
    | zero => cases first <;> simp [symbols, Primitive.symbol] at bracket
    | succ place =>
      obtain ⟨earlier, later, partners, same⟩ := ih (base + 1) place bracket
      refine ⟨1 + earlier, 1 + later, ?_, by omega⟩
      exact partners.within [first.symbol] [] [first.instruction] [] (by simp [symbols])
        (by simp [instructions]) rfl
  | loop body rest ihBody ihRest =>
    have outer : (Block.loop body rest).Partners base 0 (body.size + 1) :=
      ⟨body.paired_loop rest.symbols, rfl, by simp [instructions]⟩
    have split : (Block.loop body rest).symbols =
        (.loopStart :: (body.symbols ++ [.loopEnd])) ++ rest.symbols ++ [] := by simp [symbols]
    cases place with
    | zero => exact ⟨0, body.size + 1, outer, .inl rfl⟩
    | succ place =>
      rcases Nat.lt_trichotomy place body.size with inside | rfl | behind
      · rw [symbols, List.getElem?_cons_succ,
          List.getElem?_append_left (by rw [length_symbols]; exact inside)] at bracket
        obtain ⟨earlier, later, partners, same⟩ := ihBody (base + 1) place bracket
        refine ⟨1 + earlier, 1 + later, ?_, by omega⟩
        exact partners.within [.loopStart] (.loopEnd :: rest.symbols)
          [.jumpIfZero (base + body.size + 1 : Nat)]
          (.jumpIfNonzero base :: rest.instructions (base + body.size + 2))
          (by simp [symbols]) (by simp [instructions]) rfl
      · exact ⟨0, body.size + 1, outer, .inr rfl⟩
      · obtain ⟨further, rfl⟩ := Nat.exists_eq_add_of_lt behind
        have place : body.size + further + 1 + 1 = (body.size + 2) + further := by omega
        have length :
            (Symbol.loopStart :: (body.symbols ++ [.loopEnd])).length = body.size + 2 := by simp
        rw [split, List.append_nil, place, ← length,
          List.getElem?_append_right (Nat.le_add_right _ _), Nat.add_sub_cancel_left] at bracket
        obtain ⟨earlier, later, partners, same⟩ := ihRest (base + body.size + 2) further bracket
        refine ⟨body.size + 2 + earlier, body.size + 2 + later, ?_, by omega⟩
        rw [← length]
        refine Partners.within _ [] (.jumpIfZero (base + body.size + 1 : Nat) ::
          (body.instructions (base + 1) ++ [.jumpIfNonzero base])) [] ?_ split ?_ ?_
        · rw [length]
          exact partners
        · rw [length]
          simp [instructions, Nat.add_assoc]
        · simp

end Block
end Brainfuck
