import Brainfuck.Proofs.Erasure

/-! Runs with and without breakpoints. A machine that executes a block is paired with
one that executes the block without its breakpoints: they have the same data, and the
second waits while the first passes a breakpoint. -/

namespace Brainfuck

namespace Machine

/-- The instructions that a number of steps attempt, in order. -/
def attempted : Nat → Machine → List Instruction
  | 0, _ => []
  | count + 1, machine =>
    if machine.engine.finished then []
    else (machine.engine.program.at? machine.engine.ip).toList ++ attempted count machine.step.2

/-- One machine stands at an index of a block and the other at the matching index of
the block without breakpoints, with the same data. -/
def Paired (block : Block) (ip : Nat) (marked bare : Machine) : Prop :=
  ∃ data, marked.At (block.instructions 0) ip data ∧
    bare.At (block.erase.instructions 0) (keptBefore (block.instructions 0) ip) data

variable {block : Block} {ip count : Nat} {marked bare final other : Machine}

theorem attempted_of_finished (finished : marked.engine.finished = true) :
    attempted count marked = [] := by
  cases count with
  | zero => rfl
  | succ count => simp [attempted, finished]

theorem attempted_succ {status : Status} {stepped : Machine} {instruction : Instruction}
    (running : marked.engine.finished = false)
    (found : marked.engine.program.at? marked.engine.ip = some instruction)
    (step : marked.step = (.ok status, stepped)) :
    attempted (count + 1) marked = instruction :: attempted count stepped := by
  simp [attempted, running, found, step]

theorem keptBefore_instructions (block : Block) :
    keptBefore (block.instructions 0) (block.instructions 0).length =
      (block.erase.instructions 0).length := by
  have whole := block.fits_instructions.keptBefore_add
  simpa [keptBefore] using whole

namespace Paired

theorem bare_finished (paired : Paired block ip marked bare)
    (finished : marked.engine.finished = true) : bare.engine.finished = true := by
  obtain ⟨data, stands, stands'⟩ := paired
  have last := stands.finished_iff.mp finished
  exact stands'.finished_iff.mpr (by rw [last, keptBefore_instructions])

theorem inside (paired : Paired block ip marked bare)
    (running : marked.engine.finished = false) : ip < (block.instructions 0).length := by
  obtain ⟨data, stands, -⟩ := paired
  exact stands.inside running

/-- A breakpoint is passed by one machine while the other waits. -/
theorem pass (paired : Paired block ip marked bare)
    (found : (block.instructions 0)[ip]? = some .breakpoint) :
    ∃ status stepped, marked.step = (.ok status, stepped) ∧
      Paired block (ip + 1) stepped bare ∧
      stepped.engine.steps = marked.engine.steps + 1 := by
  obtain ⟨data, stands, stands'⟩ := paired
  obtain ⟨inside, -⟩ := List.getElem?_eq_some_iff.mp found
  obtain ⟨step, stands⟩ := stands.step (ip + 1) found rfl inside
  refine ⟨_, _, step, ⟨data, stands, ?_⟩, rfl⟩
  rwa [keptBefore_breakpoint found]

/-- Any other instruction is executed by both machines. -/
theorem together (paired : Paired block ip marked bare) {instruction : Instruction}
    (found : (block.instructions 0)[ip]? = some instruction) (kept : instruction ≠ .breakpoint) :
    ∃ status status' stepped stepped', marked.step = (.ok status, stepped) ∧
      bare.step = (.ok status', stepped') ∧
      bare.engine.finished = false ∧
      ((∃ next, Paired block next stepped stepped' ∧
          stepped.engine.steps = marked.engine.steps + 1 ∧
          stepped'.engine.steps = bare.engine.steps + 1) ∨
        stepped = marked.failed ∧ stepped' = bare.failed) := by
  obtain ⟨data, stands, stands'⟩ := paired
  obtain ⟨inside, -⟩ := List.getElem?_eq_some_iff.mp found
  have fits : Block.Fits (block.erase.instructions 0) (keptBefore (block.instructions 0) 0)
      block.erase := by
    simpa [keptBefore] using block.erase.fits_instructions
  have twins := block.fits_instructions.twin fits (Nat.zero_le ip) (by simpa using inside)
  rw [found] at twins
  rcases twins with marks | ⟨_, other, same, -, found', twin⟩
  · cases marks
    exact absurd rfl kept
  cases same
  obtain ⟨_, same, valid⟩ := block.fits_instructions.valid (Nat.zero_le ip) (by simpa using inside)
  cases found.symm.trans same
  obtain ⟨inside', -⟩ := List.getElem?_eq_some_iff.mp found'
  have running := stands'.running inside'
  cases acts : data.act ip instruction with
  | none =>
    obtain ⟨delta, rfl, below⟩ := act_eq_none valid acts
    cases twin.eq_of_move
    exact ⟨_, _, _, _, stands.underflow found below, stands'.underflow found' below, running,
      .inr ⟨rfl, rfl⟩⟩
  | some reached =>
    obtain ⟨place, after⟩ := reached
    obtain ⟨next, rfl, within⟩ := act_within valid inside acts
    obtain ⟨step, stands⟩ := stands.step next found acts within
    have within' :
        keptBefore (block.instructions 0) next ≤ (block.erase.instructions 0).length := by
      rw [← keptBefore_instructions]
      exact keptBefore_mono within
    obtain ⟨step', stands'⟩ := stands'.step _ found' (twin.act found kept acts) within'
    exact ⟨_, _, _, _, step, step', running, .inl ⟨next, ⟨after, stands, stands'⟩, rfl, rfl⟩⟩

end Paired

/-- Two machines have ended with the same data: both have halted, or both failed in the
same move, which stands at matching indexes. -/
structure EndedAlike (block : Block) (final other : Machine) : Prop where
  data_eq : final.data = other.data
  status : (final.engine.status = .halted ∧ other.engine.status = .halted) ∨
    ∃ (ip : Nat) (pointer : Int), ip ≤ block.size ∧
      final.engine.status = .failed ⟨ip, pointer⟩ ∧
      other.engine.status = .failed ⟨keptBefore (block.instructions 0) ip, pointer⟩

namespace Paired

theorem endedAlike_of_finished (paired : Paired block ip marked bare)
    (finished : marked.engine.finished = true) : EndedAlike block marked bare := by
  have finished' := paired.bare_finished finished
  obtain ⟨data, stands, stands'⟩ := paired
  have last := stands.finished_iff.mp finished
  have last' := stands'.finished_iff.mp finished'
  refine ⟨stands.data_eq.trans stands'.data_eq.symm, .inl ⟨?_, ?_⟩⟩
  · rw [stands.status, if_neg (by omega)]
  · rw [stands'.status, if_neg (by omega)]

theorem endedAlike_failed (paired : Paired block ip marked bare) :
    EndedAlike block marked.failed bare.failed := by
  obtain ⟨data, stands, stands'⟩ := paired
  have data_eq : marked.data = bare.data := stands.data_eq.trans stands'.data_eq.symm
  have pointer : marked.engine.pointer = bare.engine.pointer := congrArg Data.pointer data_eq
  have bound := stands.within
  rw [Block.length_instructions] at bound
  refine ⟨data_eq, .inr ⟨ip, marked.engine.pointer, bound, ?_, ?_⟩⟩
  · rw [← stands.ip_eq]
    rfl
  · rw [← stands'.ip_eq, pointer]
    rfl

/-- A machine that runs to the end is followed by the one without breakpoints, which
makes a step less for every breakpoint. -/
theorem follow (paired : Paired block ip marked bare) (steps : Steps count marked final)
    (finished : final.engine.finished = true) :
    ∃ less other, Steps less bare other ∧ EndedAlike block final other ∧
      final.engine.steps + bare.engine.steps =
        other.engine.steps + marked.engine.steps +
          (attempted count marked).count .breakpoint := by
  induction count generalizing ip marked bare with
  | zero =>
    cases steps
    exact ⟨0, bare, .refl bare, paired.endedAlike_of_finished finished, Nat.add_comm _ _⟩
  | succ count ih =>
    cases ended : marked.engine.finished with
    | true =>
      cases steps.of_finished ended
      refine ⟨0, bare, .refl bare, paired.endedAlike_of_finished finished, ?_⟩
      rw [attempted_of_finished ended]
      exact Nat.add_comm _ _
    | false =>
      have inside := paired.inside ended
      have found := List.getElem?_eq_getElem inside
      have fetched : marked.engine.program.at? marked.engine.ip =
          some ((block.instructions 0)[ip]) := by
        obtain ⟨data, stands, -⟩ := paired
        exact stands.fetch found
      by_cases marks : (block.instructions 0)[ip] = .breakpoint
      · obtain ⟨status, stepped, step, paired', sum⟩ := paired.pass (marks ▸ found)
        have rest : Steps count stepped final := steps.rest_of_step step
        obtain ⟨less, other, steps', alike, sum'⟩ := ih paired' rest
        refine ⟨less, other, steps', alike, ?_⟩
        rw [attempted_succ ended fetched step, marks, List.count_cons_self]
        omega
      · obtain ⟨status, status', stepped, stepped', step, step', running, reached⟩ :=
          paired.together found marks
        have rest : Steps count stepped final := steps.rest_of_step step
        rw [attempted_succ ended fetched step, List.count_cons_of_ne marks]
        rcases reached with ⟨next, paired', sum, sum'⟩ | ⟨rfl, rfl⟩
        · obtain ⟨less, other, steps', alike, total⟩ := ih paired' rest
          exact ⟨less + 1, other, .next step' steps', alike, by omega⟩
        · have ends : marked.failed.engine.finished = true := rfl
          cases rest.of_finished ends
          refine ⟨1, _, .next step' (.refl _), paired.endedAlike_failed, ?_⟩
          have nothing : attempted count marked.failed = [] := attempted_of_finished ends
          rw [nothing]
          exact Nat.add_comm _ _

theorem skip (paired : Paired block ip marked bare) :
    ∃ more stepped place, Steps more marked stepped ∧ Paired block place stepped bare ∧
      (stepped.engine.finished = true ∨
        ∃ instruction, (block.instructions 0)[place]? = some instruction ∧
          instruction ≠ .breakpoint) := by
  generalize left : (block.instructions 0).length - ip = distance
  induction distance generalizing ip marked with
  | zero =>
    have finished : marked.engine.finished = true := by
      cases ended : marked.engine.finished with
      | true => rfl
      | false =>
        have inside := paired.inside ended
        omega
    exact ⟨0, marked, ip, .refl marked, paired, .inl finished⟩
  | succ distance ih =>
    have inside : ip < (block.instructions 0).length := by omega
    have found := List.getElem?_eq_getElem inside
    by_cases marks : (block.instructions 0)[ip] = .breakpoint
    · obtain ⟨status, stepped, step, paired', -⟩ := paired.pass (marks ▸ found)
      obtain ⟨more, middle, place, steps, reached⟩ := ih paired' (by omega)
      exact ⟨more + 1, middle, place, .next step steps, reached⟩
    · exact ⟨0, marked, ip, .refl marked, paired, .inr ⟨_, found, marks⟩⟩

theorem lead (paired : Paired block ip marked bare) (steps : Steps count bare other)
    (finished : other.engine.finished = true) :
    ∃ more final, Steps more marked final ∧ final.engine.finished = true := by
  induction count using Nat.strongRecOn generalizing ip marked bare with
  | ind count ih =>
    obtain ⟨more, middle, place, passed, paired', reached⟩ := paired.skip
    rcases reached with ended | ⟨instruction, found, kept⟩
    · exact ⟨more, middle, passed, ended⟩
    · obtain ⟨status, status', stepped, stepped', step, step', running, reached⟩ :=
        paired'.together found kept
      rcases reached with ⟨next, paired'', -⟩ | ⟨rfl, -⟩
      · obtain ⟨fewer, less, steps'⟩ := steps.tail step' running finished
        obtain ⟨further, final, rest, ended⟩ := ih fewer less paired'' steps'
        exact ⟨_, final, passed.trans (.next step rest), ended⟩
      · exact ⟨_, _, passed.trans (.next step (.refl _)), rfl⟩

end Paired

namespace EndedAlike

theorem halted_iff (alike : EndedAlike block final other) :
    final.engine.status = .halted ↔ other.engine.status = .halted := by
  rcases alike.status with ⟨halted, halted'⟩ | ⟨ip, pointer, -, failed, failed'⟩
  · simp [halted, halted']
  · simp [failed, failed']

theorem failed_iff (alike : EndedAlike block final other) :
    (∃ underflow, final.engine.status = .failed underflow) ↔
      ∃ underflow, other.engine.status = .failed underflow := by
  rcases alike.status with ⟨halted, halted'⟩ | ⟨ip, pointer, -, failed, failed'⟩
  · simp [halted, halted']
  · simp [failed, failed']

theorem finished (alike : EndedAlike block final other) : other.engine.finished = true := by
  rcases alike.status with ⟨-, halted⟩ | ⟨ip, pointer, -, -, failed⟩
  · rw [Engine.finished, halted]
    rfl
  · rw [Engine.finished, failed]
    rfl

/-- The move that failed stands as much further left as there are breakpoints before it. -/
theorem place {underflow underflow' : Underflow} (alike : EndedAlike block final other)
    (failed : final.engine.status = .failed underflow)
    (failed' : other.engine.status = .failed underflow') :
    underflow'.pointer = underflow.pointer ∧ underflow'.instruction = underflow.instruction -
      ((block.instructions 0).take underflow.instruction.toNat).count .breakpoint := by
  rcases alike.status with ⟨halted, -⟩ | ⟨ip, pointer, within, same, same'⟩
  · rw [halted] at failed
    cases failed
  · cases same.symm.trans failed
    cases same'.symm.trans failed'
    have inside : ip ≤ (block.instructions 0).length := by simpa using within
    have parts := keptBefore_add_count inside
    refine ⟨rfl, ?_⟩
    change (keptBefore (block.instructions 0) ip : Int) =
      ip - ((block.instructions 0).take ip).count .breakpoint
    omega

end EndedAlike

/-- The runs of two machines end alike: the first executes the breakpoints of a code,
which the second does not have. -/
structure RunsAlike (code : List Instruction) (marked bare : Machine) : Prop where
  halts : (∃ final, marked.EndsWith .halted final) ↔ ∃ other, bare.EndsWith .halted other
  fails : (∃ underflow final, marked.EndsWith (.failed underflow) final) ↔
    ∃ underflow other, bare.EndsWith (.failed underflow) other
  data_eq : ∀ {status status' final other}, marked.EndsWith status final →
    bare.EndsWith status' other → final.data = other.data
  place : ∀ {underflow underflow' final other}, marked.EndsWith (.failed underflow) final →
    bare.EndsWith (.failed underflow') other →
    underflow'.pointer = underflow.pointer ∧
      underflow'.instruction =
        underflow.instruction - (code.take underflow.instruction.toNat).count .breakpoint
  steps_eq : ∀ {fuel status status' final other},
    runToEnd fuel marked = (.ok (some status), final) → bare.EndsWith status' other →
    final.engine.steps = other.engine.steps + (attempted fuel marked).count .breakpoint

namespace Paired

variable {fuel : Nat} {status status' : Status}

theorem endsWith (paired : Paired block ip marked bare)
    (ran : runToEnd fuel marked = (.ok (some status), final)) :
    ∃ other, bare.EndsWith other.engine.status other ∧ EndedAlike block final other ∧
      final.engine.steps + bare.engine.steps =
        other.engine.steps + marked.engine.steps + (attempted fuel marked).count .breakpoint := by
  obtain ⟨finished, -⟩ := runToEnd_eq_some_iff.mp ran
  obtain ⟨steps, ended⟩ := steps_of_run finished
  obtain ⟨less, other, steps', alike, sum⟩ := paired.follow steps ended
  exact ⟨other, endsWith_iff.mpr ⟨less, steps', alike.finished, rfl⟩, alike, sum⟩

theorem endedAlike (paired : Paired block ip marked bare) (ends : marked.EndsWith status final)
    (ends' : bare.EndsWith status' other) : EndedAlike block final other := by
  obtain ⟨fuel, ran⟩ := ends
  obtain ⟨last, follows, alike, -⟩ := paired.endsWith ran
  exact ends'.unique follows ▸ alike

theorem exists_ends (paired : Paired block ip marked bare) :
    (∃ status final, marked.EndsWith status final) ↔
      ∃ status other, bare.EndsWith status other := by
  constructor
  · intro ending
    obtain ⟨status, final, fuel, ran⟩ := ending
    obtain ⟨other, ends, -⟩ := paired.endsWith ran
    exact ⟨_, other, ends⟩
  · intro ending
    obtain ⟨status, other, ends⟩ := ending
    obtain ⟨count, steps, finished, -⟩ := endsWith_iff.mp ends
    obtain ⟨more, final, steps', finished'⟩ := paired.lead steps finished
    exact ⟨_, final, endsWith_iff.mpr ⟨more, steps', finished', rfl⟩⟩

theorem load (block : Block) (tokens others : List Token) (source : String)
    (input : List (Option Int)) (size : Int) :
    Paired block 0 (Machine.load (Program.ofBlock block tokens source) input (Tape.blank size))
      (Machine.load (Program.ofBlock block.erase others source) input (Tape.blank size)) :=
  ⟨_, At.load (Program.ofBlock block tokens source) input size,
    At.load (Program.ofBlock block.erase others source) input size⟩

theorem runsAlike (paired : Paired block ip marked bare)
    (start : marked.engine.steps = bare.engine.steps) :
    RunsAlike (block.instructions 0) marked bare where
  halts := by
    constructor
    · intro halting
      obtain ⟨final, ends⟩ := halting
      obtain ⟨status, other, ends'⟩ := paired.exists_ends.mp ⟨_, final, ends⟩
      have halted := (paired.endedAlike ends ends').halted_iff.mp ends.status_eq
      cases ends'.status_eq.symm.trans halted
      exact ⟨other, ends'⟩
    · intro halting
      obtain ⟨other, ends'⟩ := halting
      obtain ⟨status, final, ends⟩ := paired.exists_ends.mpr ⟨_, other, ends'⟩
      have halted := (paired.endedAlike ends ends').halted_iff.mpr ends'.status_eq
      cases ends.status_eq.symm.trans halted
      exact ⟨final, ends⟩
  fails := by
    constructor
    · intro failing
      obtain ⟨underflow, final, ends⟩ := failing
      obtain ⟨status, other, ends'⟩ := paired.exists_ends.mp ⟨_, final, ends⟩
      obtain ⟨last, failed⟩ := (paired.endedAlike ends ends').failed_iff.mp ⟨_, ends.status_eq⟩
      cases ends'.status_eq.symm.trans failed
      exact ⟨last, other, ends'⟩
    · intro failing
      obtain ⟨underflow, other, ends'⟩ := failing
      obtain ⟨status, final, ends⟩ := paired.exists_ends.mpr ⟨_, other, ends'⟩
      obtain ⟨last, failed⟩ := (paired.endedAlike ends ends').failed_iff.mpr ⟨_, ends'.status_eq⟩
      cases ends.status_eq.symm.trans failed
      exact ⟨last, final, ends⟩
  data_eq ends ends' := (paired.endedAlike ends ends').data_eq
  place ends ends' := (paired.endedAlike ends ends').place ends.status_eq ends'.status_eq
  steps_eq ran ends' := by
    obtain ⟨last, follows, -, sum⟩ := paired.endsWith ran
    cases ends'.unique follows
    omega

end Paired
end Machine

theorem Program.Spells.erase {tokens : List Token} {symbols : List Symbol}
    (spelled : Spells tokens symbols) :
    Spells (tokens.filter (·.glyph ≠ .symbol .breakpoint)) (symbols.filter (· ≠ .breakpoint)) := by
  have glyphs : (tokens.map Token.glyph).filter (· ≠ .symbol .breakpoint) =
      (symbols.map Glyph.symbol).filter (· ≠ .symbol .breakpoint) := by rw [spelled]
  rw [List.filter_map, List.filter_map] at glyphs
  simpa [Spells, Function.comp_def] using glyphs

/-- Without its breakpoints a program ends as it does with them, after as many
instructions less as it executed breakpoints. -/
theorem run_erase_breakpoints {tokens : List Token} {symbols : List Symbol}
    (spelled : Program.Spells tokens symbols) (balanced : Balanced symbols) (source : String) :
    ∃ program bare, Program.ofTokens tokens source = .ok program ∧
      Program.ofTokens (tokens.filter (·.glyph ≠ .symbol .breakpoint)) source = .ok bare ∧
      ∀ (input : List (Option Int)) (size : Int),
        (Machine.load program input (Tape.blank size)).RunsAlike program.instructions.toList
          (Machine.load bare input (Tape.blank size)) := by
  obtain ⟨block, rfl⟩ := balanced.exists_block
  have spelled' := spelled.erase
  rw [← block.symbols_erase] at spelled'
  refine ⟨_, _, Program.ofTokens_of_spells source spelled,
    Program.ofTokens_of_spells source spelled', ?_⟩
  intro input size
  exact (Machine.Paired.load block tokens _ source input size).runsAlike rfl

/-- In `#+[#-]<` breakpoints stand before and in a loop. -/
theorem run_erase_breakpoints_loop :
    ∃ program bare,
      Program.ofTokens [.ofSymbol .breakpoint 0, .ofSymbol .increment 1, .ofSymbol .loopStart 2,
        .ofSymbol .breakpoint 3, .ofSymbol .decrement 4, .ofSymbol .loopEnd 5,
        .ofSymbol .left 6] "" = .ok program ∧
      Program.ofTokens [.ofSymbol .increment 1, .ofSymbol .loopStart 2, .ofSymbol .decrement 4,
        .ofSymbol .loopEnd 5, .ofSymbol .left 6] "" = .ok bare ∧
      ∀ (input : List (Option Int)) (size : Int),
        (Machine.load program input (Tape.blank size)).RunsAlike program.instructions.toList
          (Machine.load bare input (Tape.blank size)) := by
  have spelled : Program.Spells [.ofSymbol .breakpoint 0, .ofSymbol .increment 1,
      .ofSymbol .loopStart 2, .ofSymbol .breakpoint 3, .ofSymbol .decrement 4,
      .ofSymbol .loopEnd 5, .ofSymbol .left 6]
    [.breakpoint, .increment, .loopStart, .breakpoint, .decrement, .loopEnd, .left] := rfl
  exact run_erase_breakpoints spelled (by decide) ""

end Brainfuck
