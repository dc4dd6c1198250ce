import Brainfuck.Proofs.Session.Following
import Brainfuck.Proofs.Session.Settling
import Brainfuck.Proofs.Transparency

namespace Brainfuck

namespace Engine

variable {State : Type} {engine next : Engine} {write : UInt8 → ExceptT Fault (StateM State) Unit}
  {read : ExceptT Fault (StateM State) (Option Int)} {state after : State} {block : Block}

theorem Placed.running_of_unfinished (placed : engine.Placed block)
    (unfinished : engine.finished = false) : engine.status = .running := by
  rcases placed.status_cases with ⟨underflow, status⟩ | status | status
  · rw [finished, status] at unfinished
    cases unfinished
  · rw [finished, status] at unfinished
    cases unfinished
  · exact status

theorem Placed.program_of_step (placed : engine.Placed block)
    (executed : engine.step write read state = (.ok next, after)) :
    next.program = engine.program := by
  obtain ⟨streams, rfl⟩ := exists_stepped executed
  exact (placed streams).step.2.program_eq

theorem Placed.lastIndex_of_step (placed : engine.Placed block) (running : engine.finished = false)
    (executed : engine.step write read state = (.ok next, after)) :
    next.lastIndex = some engine.ip := by
  obtain ⟨streams, rfl⟩ := exists_stepped executed
  have attempted : (⟨engine, streams⟩ : Machine).attempts = true := by
    simp [Machine.attempts, running]
  rw [(placed streams).step.2.lastIndex_eq, if_pos attempted]

/-- The engine has executed the breakpoint at an index, and stands behind it. -/
structure BrokenAt (engine : Engine) (index : Int) : Prop where
  inside : 0 ≤ index
  found : engine.program.at? index = some .breakpoint
  lastIndex : engine.lastIndex = some index
  ip : engine.ip = index + 1
  /-- It has halted if the breakpoint is the last instruction, and else it runs. -/
  status : engine.status = if index + 1 = engine.program.size then .halted else .running

theorem Placed.brokenAt_of_step (placed : engine.Placed block) (running : engine.finished = false)
    (executed : engine.step write read state = (.ok next, after))
    (found : next.program.at? engine.ip = some .breakpoint) : next.BrokenAt engine.ip := by
  have program := placed.program_of_step executed
  have last := placed.lastIndex_of_step running executed
  have status := placed.running_of_unfinished running
  obtain ⟨streams, rfl⟩ := exists_stepped executed
  have turn := (placed streams).step.2
  obtain ⟨above, below⟩ := turn.ip_inside (by simp [Machine.attempts, running])
  have visited : (⟨engine, streams⟩ : Machine).visits = true :=
    Machine.visits_iff.mpr ⟨running, program ▸ found⟩
  have stepped := congrArg Machine.engine (Machine.stepped_of_visits visited)
  have size : (engine.program.size : Int) = (block.instructions 0).length := by
    rw [← (placed streams).code_eq, Array.length_toList]
    rfl
  refine ⟨above, found, last, by rw [stepped]; rfl, ?_⟩
  rw [program, stepped]
  change (if (engine.program.size : Int) ≤ engine.ip + 1 then Status.halted else engine.status) = _
  change engine.ip < _ at below
  rw [status]
  by_cases last : engine.ip + 1 = engine.program.size
  · rw [if_pos (by omega), if_pos last]
  · rw [if_neg (by omega), if_neg last]

end Engine

/-- What a status says of an engine that a session with such options drives. -/
def Status.TrueOf (options : Session.Options) (engine : Engine) : Status → Prop
  | .running => engine.status = .running
  | .halted => engine.status = .halted
  | .failed underflow => engine.status = .failed underflow
  | .pausedAtBreakpoint index => options.breakpoints = true ∧ engine.BrokenAt index
  | .pausedForStep index =>
    options.mode = .step ∧ engine.lastIndex = some index ∧ engine.status = .running

/-- The status of an engine is true of it. -/
theorem Engine.Placed.trueOf {engine : Engine} {block : Block} (placed : engine.Placed block)
    (options : Session.Options) : engine.status.TrueOf options engine := by
  rcases placed.status_cases with ⟨underflow, status⟩ | status | status
  · rw [status]
    exact status
  · rw [status]
    exact status
  · rw [status]
    exact status

namespace Session

variable {World : Type} {listeners : Listeners World} {blocking : Bool} {allowance : Nat}
  {status : Status} {status? : Option Status} {before middle after : Session × World}
  {block : Block} {call : Call} {calls : List Call}

/-- What is left behind some instructions. The options and the program are those of before, the
engine always has an answer, and a status is true of it. -/
structure Truthful (block : Block) (before after : Session × World) (status : Status) : Prop where
  options_eq : after.1.options = before.1.options
  program_eq : after.1.engine.program = before.1.engine.program
  placed : after.1.engine.Placed block
  truth : status.TrueOf before.1.options after.1.engine

theorem Truthful.trans {status' : Status} (first : Truthful block before middle status)
    (second : Truthful block middle after status') : Truthful block before after status' where
  options_eq := second.options_eq.trans first.options_eq
  program_eq := second.program_eq.trans first.program_eq
  placed := second.placed
  truth := first.options_eq ▸ second.truth

theorem truthful_of_advance (discreet : listeners.Discreet) (active : before.1.active = true)
    (placed : before.1.engine.Placed block) (running : before.1.engine.finished = false)
    (advances : advance listeners blocking before = (.ok status, after)) :
    Truthful block before after status := by
  obtain ⟨engine, advanced⟩ := exists_advanced discreet active running advances
  obtain ⟨middle, executed⟩ := advanced.executed
  have placed' := advanced.placed placed
  have settled := settled_of_advance discreet active placed running advances
  rw [advanced.engine_eq] at placed' settled
  have options : after.1.options = before.1.options := by
    obtain ⟨_, left⟩ := advanced.left
    rw [left]
  refine ⟨options, ?_, ?_, ?_⟩
  · rw [advanced.engine_eq]
    exact placed.program_of_step executed
  · rw [advanced.engine_eq]
    exact placed'
  · rw [advanced.engine_eq]
    cases settled with
    | failed failed => exact failed
    | broken enabled found => exact ⟨enabled, placed.brokenAt_of_step running executed found⟩
    | halted halted => exact halted
    | stepped mode running' => exact ⟨mode, placed.lastIndex_of_step running executed, running'⟩
    | running running => exact running

theorem truthful_of_boundary (placed : before.1.engine.Placed block)
    (ended : boundary before = (.ok status?, after)) :
    Truthful block before after (status?.getD .running) := by
  rw [boundary_apply] at ended
  split at ended
  · cases ended
    exact ⟨rfl, rfl, placed, placed.trueOf _⟩
  · next unfinished =>
    have running := placed.running_of_unfinished (by simpa using unfinished)
    split at ended
    · cases ended
      exact ⟨rfl, rfl, placed, running⟩
    · cases ended
      exact ⟨rfl, rfl, placed, running⟩

/-- However a run ends, its status is true of the engine. -/
theorem truthful_of_run (discreet : listeners.Discreet) (active : before.1.active = true)
    (placed : before.1.engine.Placed block)
    (ended : run listeners allowance before = (.ok status?, after)) :
    Truthful block before after (status?.getD .running) := by
  induction allowance generalizing before with
  | zero => exact truthful_of_boundary placed ended
  | succ allowance ih =>
    by_cases ready : before.1.Ready
    · rw [run_succ_of_ready ready] at ended
      obtain ⟨status, middle, advances, later⟩ := bind_eq_ok ended
      have first := truthful_of_advance discreet active placed ready.running advances
      split at later
      · cases later
        exact first
      · obtain ⟨engine, advanced⟩ := exists_advanced discreet active ready.running advances
        exact first.trans (ih (advanced.active_eq.trans active) first.placed later)
    · rw [run_of_not_ready ready] at ended
      exact truthful_of_boundary placed ended

theorem truthful_of_body (discreet : listeners.Discreet) (active : before.1.active = true)
    (placed : before.1.engine.Placed block) {entry : Entry}
    (ended : entry.body listeners before = (.ok (some status), after)) :
    Truthful block before after status := by
  cases entry with
  | resume fuel => exact truthful_of_run discreet active placed ended
  | resumeFor count =>
    obtain ⟨status?, _, ran, returned⟩ := bind_eq_ok ended
    cases returned
    exact truthful_of_run discreet active placed ran
  | stepOnce =>
    obtain ⟨status', _, advances, returned⟩ := bind_eq_ok ended
    cases returned
    cases finished : before.1.engine.finished with
    | true =>
      rw [advance_of_finished finished] at advances
      cases advances
      exact ⟨rfl, rfl, placed, placed.trueOf _⟩
    | false => exact truthful_of_advance discreet active placed finished advances

theorem truthful_of_perform (discreet : listeners.Discreet) (idle : before.1.active = false)
    (placed : before.1.engine.Placed block) {entry : Entry}
    (returned : entry.perform listeners before = (.ok (some status), after)) :
    after.1.status = status ∧ Truthful block before after status := by
  rw [entry.perform_of_idle idle] at returned
  obtain ⟨left, ended, rfl⟩ := closed_eq_ok_iff.mp returned
  have entered : (enter before).1.engine.Placed block := placed
  have truthful := truthful_of_body discreet rfl entered ended
  exact ⟨rfl, truthful.options_eq, truthful.program_eq, truthful.placed, truthful.truth⟩

/-- A call that returns makes the session execute instructions, or asks it to stop, or changes
nothing. -/
theorem Call.Returns.cases (returns : call.Returns listeners before after) :
    (∃ (entry : Entry) (status : Status),
        entry.perform listeners before = (.ok (some status), after)) ∨
      after = ({ before.1 with interrupted := true }, before.2) ∨ after = before := by
  cases call with
  | resume limit =>
    cases limit with
    | none =>
      obtain ⟨fuel, status, returned⟩ := returns
      exact .inl ⟨.resume fuel, status, returned⟩
    | some limit =>
      obtain ⟨status, returned⟩ := returns
      exact .inl ⟨.resumeFor limit.toNat, status, by rw [Entry.perform, map_apply, returned]⟩
  | stepOnce =>
    obtain ⟨status, returned⟩ := returns
    exact .inl ⟨.stepOnce, status, by rw [Entry.perform, map_apply, returned]⟩
  | interrupt =>
    cases returns
    exact .inr (.inl rfl)
  | observe => exact .inr (.inr returns)

/-- Between calls, the status of the session is true of its engine. -/
structure Consistent (block : Block) (options : Options) (program : Program) (session : Session) :
    Prop where
  idle : session.active = false
  options_eq : session.options = options
  program_eq : session.engine.program = program
  placed : session.engine.Placed block
  truth : session.status.TrueOf options session.engine

theorem Call.AllReturn.consistent {options : Options} {program : Program}
    (returned : AllReturn listeners calls before after) (discreet : listeners.Discreet)
    (consistent : Consistent block options program before.1) :
    Consistent block options program after.1 := by
  induction returned with
  | nil => exact consistent
  | @cons call calls before middle after first _ ih =>
    refine ih ?_
    rcases first.cases with ⟨entry, status, performed⟩ | rfl | rfl
    · have idle : (entry.perform listeners before).2.1.active = false :=
        entry.idle_perform consistent.idle
      rw [performed] at idle
      obtain ⟨same, truthful⟩ :=
        truthful_of_perform discreet consistent.idle consistent.placed performed
      refine ⟨idle, truthful.options_eq.trans consistent.options_eq,
        truthful.program_eq.trans consistent.program_eq, truthful.placed, ?_⟩
      rw [same, ← consistent.options_eq]
      exact truthful.truth
    · exact ⟨consistent.idle, consistent.options_eq, consistent.program_eq, consistent.placed,
        consistent.truth⟩
    · exact consistent

/-- Whatever is called on a session whose callbacks leave it alone, in between its status is true of
the engine. -/
theorem status_truthful {listeners : Listeners World} (discreet : listeners.Discreet)
    {tokens : List Token} {source : String} {program : Program}
    (built : Program.ofTokens tokens source = .ok program) (options : Options) (size : Int)
    {world : World} {calls : List Call} {after : Session × World}
    (returned : Call.AllReturn listeners calls (start program options (Tape.blank size), world)
      after) :
    after.1.active = false ∧ after.1.options = options ∧ after.1.engine.program = program ∧
      after.1.status.TrueOf options after.1.engine := by
  obtain ⟨block, placed⟩ := start_placed built options size
  have initial : Consistent block options program (start program options (Tape.blank size)) :=
    ⟨rfl, rfl, rfl, placed, placed.trueOf options⟩
  have consistent := returned.consistent discreet initial
  exact ⟨consistent.idle, consistent.options_eq, consistent.program_eq, consistent.truth⟩

theorem Listeners.scripted_discreet : scripted.Discreet where
  output _ state _ := ⟨state.1.interrupted, rfl⟩
  input state _ := ⟨state.1.interrupted, rfl⟩
  observer := by
    rintro observer ⟨⟩ observation state _
    exact ⟨true, rfl⟩
  acknowledge := by
    rintro acknowledge ⟨⟩ observation state _
    exact ⟨state.1.interrupted, rfl⟩

/-- A session of `+#` in step mode is stopped behind its first instruction. Then it pauses at the
breakpoint, behind which its engine has halted. -/
theorem status_truthful_halted :
    let program : Program := ⟨#[.adjust 1, .breakpoint], #[0, 1], "+#"⟩
    ∃ after, Program.ofTokens [.ofSymbol .increment 0, .ofSymbol .breakpoint 1] "+#" = .ok program ∧
      Call.AllReturn .scripted [.resume none, .observe, .interrupt, .stepOnce]
        (start program { mode := .step } (Tape.blank 1), {}, [true]) after ∧
      after.1.status = .pausedAtBreakpoint 1 ∧ after.1.engine.status = .halted ∧
      after.1.engine.program = program ∧
      after.1.status.TrueOf { mode := .step } after.1.engine := by
  intro program
  have built : Program.ofTokens [.ofSymbol .increment 0, .ofSymbol .breakpoint 1] "+#" =
    .ok program := rfl
  have returned : Call.AllReturn .scripted [.resume none, .observe, .interrupt, .stepOnce]
      (start program { mode := .step } (Tape.blank 1), {}, [true]) _ :=
    .cons ⟨1, _, rfl⟩ (.cons rfl (.cons rfl (.cons ⟨_, rfl⟩ (.nil _))))
  have truthful := status_truthful Listeners.scripted_discreet built { mode := .step } 1 returned
  exact ⟨_, built, returned, rfl, rfl, truthful.2.2.1, truthful.2.2.2⟩

end Session
end Brainfuck
