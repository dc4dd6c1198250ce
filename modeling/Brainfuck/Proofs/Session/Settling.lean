import Brainfuck.Proofs.Session.Sound

namespace Brainfuck

/-- An engine in the layout of a block has failed or halted, or it runs. -/
theorem Engine.Placed.status_cases {engine : Engine} {block : Block}
    (placed : engine.Placed block) :
    (∃ underflow, engine.status = .failed underflow) ∨
      engine.status = .halted ∨ engine.status = .running := by
  have cases := Machine.Placed.status_cases (placed {})
  rcases cases with ⟨-, halted⟩ | ⟨-, running | failed⟩
  · exact .inr (.inl halted)
  · exact .inr (.inr running)
  · exact .inl failed

namespace Session

variable {World : Type} {listeners : Listeners World} {blocking : Bool} {index : Int}
  {options : Options} {engine : Engine} {status : Status} {before after : Session × World}
  {block : Block}

/-- The status behind the instruction at an index that led to an engine. -/
inductive Settled (options : Options) (index : Int) (engine : Engine) : Status → Prop where
  | failed {underflow : Underflow} (failed : engine.status = .failed underflow) :
      Settled options index engine (.failed underflow)
  | broken (enabled : options.breakpoints = true)
      (found : engine.program.at? index = some .breakpoint) :
      Settled options index engine (.pausedAtBreakpoint index)
  | halted (halted : engine.status = .halted) : Settled options index engine .halted
  | stepped (mode : options.mode = .step) (running : engine.status = .running) :
      Settled options index engine (.pausedForStep index)
  | running (running : engine.status = .running) : Settled options index engine .running

theorem Settled.status_eq (settled : Settled options index engine status)
    (goesOn : status.isPause = false) : engine.status = status := by
  cases settled with
  | failed failed => exact failed
  | broken => cases goesOn
  | halted halted => exact halted
  | stepped => cases goesOn
  | running running => exact running

theorem settled_of_consult {seen : Option Observation} (mode : options.mode = .step)
    (running : engine.status = .running)
    (consulted : consult listeners blocking index engine.status seen before =
      (.ok status, after)) :
    Settled options index engine status := by
  rcases consult_eq_ok consulted with ⟨-, rfl, -⟩ | ⟨_, _, agreed, -, -, -, -, rfl⟩
  · exact .stepped mode running
  · cases agreed with
    | true =>
      rw [running]
      exact .running running
    | false => exact .stepped mode running

theorem settled_of_settle {seen : Option Observation} (behind : before.1.Behind index)
    (unfailed : before.1.engine.status = .halted ∨ before.1.engine.status = .running)
    (settled : settle listeners blocking index before.1.engine.status before.1.options.mode seen
      before = (.ok status, after)) :
    Settled before.1.options index before.1.engine status := by
  rw [behind.settle_eq] at settled
  split at settled
  · next broken =>
    cases settled
    exact .broken broken.1 broken.2
  · split at settled
    · next halted =>
      cases settled
      exact .halted halted
    · next unhalted =>
      have running := unfailed.resolve_left unhalted
      split at settled
      · next mode => exact settled_of_consult mode running settled
      · cases settled
        rw [running]
        exact .running running

theorem settled_of_attend (discreet : listeners.Discreet) (active : before.1.active = true)
    (behind : before.1.Behind index) (placed : before.1.engine.Placed block)
    (attended : attend listeners blocking index before.1.engine.status before =
      (.ok status, after)) :
    Settled before.1.options index before.1.engine status := by
  rcases placed.status_cases with ⟨underflow, failed⟩ | unfailed
  · rw [failed, attend_of_failed] at attended
    cases attended
    exact .failed failed
  · have survived (underflow : Underflow) : before.1.engine.status ≠ .failed underflow := by
      rcases unfailed with halted | running
      · simp [halted]
      · simp [running]
    rw [attend_of_unfailed survived] at attended
    obtain ⟨seen, shown, reported, settled⟩ := bind_eq_ok attended
    obtain ⟨interrupted, left⟩ := left_of_report discreet active reported
    have engine : before.1.engine = shown.1.engine := by rw [left]
    have options : before.1.options = shown.1.options := by rw [left]
    rw [engine, options] at settled ⊢
    exact settled_of_settle (behind.of_engine_eq engine.symm) (engine ▸ unfailed) settled

/-- Whatever an instruction comes to, its status tells the truth about the engine. -/
theorem settled_of_advance (discreet : listeners.Discreet) (active : before.1.active = true)
    (placed : before.1.engine.Placed block) (running : before.1.engine.finished = false)
    (advances : advance listeners blocking before = (.ok status, after)) :
    Settled before.1.options before.1.engine.ip after.1.engine status := by
  obtain ⟨_, middle, executed, attended⟩ := executed_of_advance running advances
  obtain ⟨engine, _, interrupted, stepped, rfl, shown⟩ := exists_stepped discreet active executed
  have active' := active_of_execute discreet active executed
  have behind := behind_of_execute discreet active running placed executed
  obtain ⟨_, left⟩ := Discreet.congruence.glances.attend discreet.related blocking
    before.1.engine.ip engine.status middle active'
  rw [attended] at left
  have same : engine = middle.1.engine := by rw [shown]
  rw [same] at attended
  have settled := settled_of_attend discreet active' behind
    (by rw [← same]; exact placed.of_step stepped) attended
  rw [shown] at settled
  rwa [left, shown]

end Session
end Brainfuck
