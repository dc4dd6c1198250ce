import Brainfuck.Proofs.Pairing

namespace Brainfuck

/-- Among the first symbols there are more loop ends than loop starts. -/
def Exceeds (symbols : List Symbol) (length : Nat) : Prop :=
  length ≤ symbols.length ∧
    (symbols.take length).count .loopStart < (symbols.take length).count .loopEnd

/-- What is wrong with symbols, and at which of them. -/
inductive Blames (symbols : List Symbol) (position : Nat) : Flaw → Prop where
  /-- The loop end is the last of the fewest first symbols that have too many. -/
  | loopEnd (found : symbols[position]? = some .loopEnd)
      (first : IsLeast {length | Exceeds symbols length} (position + 1)) :
      Blames symbols position (.unmatchedLoopEnd position)
  /-- No first symbols have too many, and the loop start is the last that nothing closes. -/
  | loopStart (within : ∀ length, ¬ Exceeds symbols length)
      (last : IsGreatest
        {index | symbols[index]? = some .loopStart ∧ ∀ later, ¬ Closes symbols index later}
        position) :
      Blames symbols position (.unmatchedLoopStart position)

variable {symbols front rest : List Symbol} {tokens : List Token} {head last : Block}
  {others : List Block} {source : String}

theorem exceeds_iff {length : Nat} :
    Exceeds symbols length ↔ length ≤ symbols.length ∧ depth symbols length < 0 := by
  refine and_congr_right fun _ => ?_
  rw [depth]
  omega

/-- The depth is nowhere below that of the beginning. -/
def Upward (symbols : List Symbol) : Prop := ∀ place, 0 ≤ depth symbols place

namespace Upward

theorem append (upward : Upward front) (upward' : Upward rest) : Upward (front ++ rest) := by
  intro place
  by_cases inside : place ≤ front.length
  · rw [depth_append_left rest inside]
    exact upward place
  · obtain ⟨further, rfl⟩ := Nat.exists_eq_add_of_lt (Nat.lt_of_not_le inside)
    rw [Nat.add_assoc, depth_append]
    exact Int.add_nonneg (upward front.length) (upward' (further + 1))

theorem opened (upward : Upward rest) : Upward (.loopStart :: rest) := by
  intro place
  cases place with
  | zero => exact Int.le_refl 0
  | succ place =>
    rw [Block.depth_loopStart]
    exact Int.le_add_one (upward place)

theorem flatMap (blocks : List Block) : Upward (blocks.flatMap (.loopStart :: ·.symbols)) := by
  induction blocks with
  | nil => exact Block.empty.depth_nonneg
  | cons block blocks ih =>
    rw [List.flatMap_cons]
    exact (opened block.depth_nonneg).append ih

theorem not_exceeds (upward : Upward symbols) (length : Nat) : ¬ Exceeds symbols length := by
  intro exceeds
  have below := (exceeds_iff.mp exceeds).2
  have above := upward length
  omega

end Upward

/-- A loop end behind a block closes nothing, and is the first to do so. -/
theorem blames_loopEnd (head : Block) (rest : List Symbol) :
    Blames (head.symbols ++ .loopEnd :: rest) head.size (.unmatchedLoopEnd head.size) := by
  have behind := depth_append head.symbols (.loopEnd :: rest) 1
  rw [Block.length_symbols, Block.depth_size] at behind
  refine .loopEnd (by simp) ⟨exceeds_iff.mpr ⟨by simp, ?_⟩, ?_⟩
  · rw [behind]
    simp [depth]
  · intro length exceeds
    apply Nat.lt_of_not_le
    intro inside
    have below := (exceeds_iff.mp exceeds).2
    have above := head.depth_nonneg length
    rw [depth_append_left _ (by rw [Block.length_symbols]; exact inside)] at below
    omega

/-- A loop start before a block is closed by nothing, and each one in the block is closed. -/
theorem blames_loopStart (upward : Upward front) (last : Block) :
    Blames (front ++ .loopStart :: last.symbols) front.length
      (.unmatchedLoopStart front.length) := by
  have whole : Upward (front ++ .loopStart :: last.symbols) :=
    upward.append (.opened last.depth_nonneg)
  refine .loopStart whole.not_exceeds ⟨⟨by simp, ?_⟩, ?_⟩
  · intro later closes
    obtain ⟨behind, -, level⟩ := closes_iff.mp closes
    obtain ⟨further, rfl⟩ := Nat.exists_eq_add_of_lt behind
    have above := last.depth_nonneg (further + 1)
    have start := depth_append_left (.loopStart :: last.symbols) (Nat.le_refl front.length)
    rw [Nat.add_assoc, Nat.add_assoc, depth_append, Block.depth_loopStart, start] at level
    omega
  · intro index unclosed
    obtain ⟨found, unclosed⟩ := unclosed
    apply Nat.le_of_not_lt
    intro behind
    obtain ⟨further, rfl⟩ := Nat.exists_eq_add_of_lt behind
    have split : front ++ .loopStart :: last.symbols =
        (front ++ [.loopStart]) ++ last.symbols ++ [] := by simp
    have length : (front ++ [Symbol.loopStart]).length = front.length + 1 := by simp
    have place : front.length + further + 1 = (front ++ [Symbol.loopStart]).length + further := by
      rw [length]
      omega
    rw [split, List.append_nil, place, List.getElem?_append_right (Nat.le_add_right _ _),
      Nat.add_sub_cancel_left] at found
    obtain ⟨first, end', partners, rfl | rfl⟩ := last.exists_partners 0 further (.inl found)
    · have paired := partners.paired.within (front ++ [.loopStart]) []
      rw [← split, ← place] at paired
      exact unclosed _ paired.isLeast.1
    · cases partners.paired.closes.symm.trans found

/-- Tokens that are not balanced are refused for the bracket at fault, and for nothing else. The
error tells its place among the tokens and its line in the text. -/
theorem ofTokens_blames_bracket {tokens : List Token} {symbols : List Symbol}
    (spelled : Program.Spells tokens symbols) (unbalanced : ¬ Balanced symbols)
    (source : String) :
    ∃ (position : Nat) (token : Token) (flaw : Flaw) (error : BuildError),
      tokens[position]? = some token ∧ Blames symbols position flaw ∧
        Program.ofTokens tokens source = .error (.build error) ∧
        error = Diagnostic.report source ⟨flaw, token.offset⟩ ∧
        error.kind = .unmatchedBracket ∧ error.detail = .position position ∧
        error.line = Text.lineOf source.toList token.offset := by
  rcases Block.exists_or_unmatched symbols with block | stray | unclosed
  · obtain ⟨block, rfl⟩ := block
    exact absurd block.balanced unbalanced
  · obtain ⟨head, rest, rfl⟩ := stray
    obtain ⟨token, found, rejected⟩ := Program.ofTokens_loopEnd source spelled
    exact ⟨_, token, _, _, found, blames_loopEnd head rest, rejected, rfl, rfl, rfl, rfl⟩
  · obtain ⟨head, others, last, rfl⟩ := unclosed
    obtain ⟨token, found, rejected⟩ := Program.ofTokens_loopStart source spelled
    have upward := Upward.append head.depth_nonneg (.flatMap others)
    exact ⟨_, token, _, _, found, blames_loopStart upward last, rejected, rfl, rfl, rfl, rfl⟩

/-- A loop end too many on the second line, behind a loop that is closed. -/
theorem ofTokens_blames_bracket_second_line :
    let tokens : List Token := [.ofSymbol .loopStart 0, .ofSymbol .loopEnd 1, .ofSymbol .loopEnd 3,
      .ofSymbol .loopStart 4]
    let symbols : List Symbol := [.loopStart, .loopEnd, .loopEnd, .loopStart]
    Program.Spells tokens symbols ∧ ¬ Balanced symbols ∧
      Blames symbols 2 (.unmatchedLoopEnd 2) ∧
        ∃ error, Program.ofTokens tokens "[]\n][" = .error (.build error) ∧
          error.kind = .unmatchedBracket ∧ error.detail = .position 2 ∧ error.line = 2 := by
  intro tokens symbols
  have spelled : Program.Spells tokens symbols := rfl
  have unbalanced : ¬ Balanced symbols := by decide
  obtain ⟨position, token, flaw, error, -, blames, rejected, -, kind, detail, -⟩ :=
    ofTokens_blames_bracket spelled unbalanced "[]\n]["
  have computed : Program.ofTokens tokens "[]\n][" =
      .error (.build (Diagnostic.report "[]\n][" ⟨.unmatchedLoopEnd 2, 3⟩)) := rfl
  cases computed.symm.trans rejected
  cases detail
  cases blames with
  | loopEnd found first =>
    exact ⟨spelled, unbalanced, .loopEnd found first, _, rejected, kind, rfl, by decide⟩
  | loopStart within last => cases last.1.1

end Brainfuck
