import Brainfuck.Command.Execution
import Brainfuck.Proofs.Session.Calls

namespace Brainfuck.Command

variable {limit : Option (Value Int)} {fuel more rounds : Nat} {index : Int}
  {before middle after final : Session × Console} {status : Status} {code : Nat}

theorem display_session (observation : Observation) (state : Session × Console) :
    (Action.display observation state).2.1 = state.1 := by
  cases shown : observation.text <;> simp only [Action.display, shown] <;> rfl

/-- The operator is shown the state behind a breakpoint. -/
def reveal : Action Unit := do
  match (← Session.current).observe with
  | some observation => Action.display observation
  | none => return

/-- The operator is shown the state behind a breakpoint and asked whether to go on. -/
def question (index : Int) : Action Bool := do
  reveal
  Action.ask s!"[{(Status.pausedAtBreakpoint index).text}] Enter to resume, q to stop: "

theorem reveal_apply (state : Session × Console) :
    reveal state =
      match state.1.observe with
      | some observation => Action.display observation state
      | none => (.ok (), state) := by
  change (match state.1.observe with
    | some observation => Action.display observation
    | none => return : Action Unit) state = _
  cases state.1.observe <;> rfl

theorem question_session (index : Int) (state : Session × Console) :
    (question index state).2.1 = state.1 := by
  have shown : (reveal state).2.1 = state.1 := by
    rw [reveal_apply]
    cases state.1.observe with
    | none => rfl
    | some observation => exact display_session observation state
  rw [question, bind_apply]
  rcases revealed : reveal state with ⟨fault | _, middle⟩
  · rwa [revealed] at shown
  · rwa [revealed] at shown

theorem drive_of_paused
    (paused : burst limit fuel before = (.ok (some (.pausedAtBreakpoint index)), middle)) :
    drive limit fuel (rounds + 1) before =
      (do if ← question index then drive limit fuel rounds else return some 0) middle := by
  have found : Session.current middle = (.ok middle.1, middle) := rfl
  rw [drive, bind_apply, paused, question, bind_assoc, bind_apply, reveal_apply]
  dsimp only
  rw [bind_apply, found]
  dsimp only
  cases middle.1.observe with
  | none => rfl
  | some observation => exact bind_apply _ _ _

theorem burst_apply (limit : Option (Value Int)) (fuel : Nat) (before : Session × Console) :
    burst limit fuel before =
      match Command.resume limit fuel before with
      | (.ok (some status), left) =>
        (.ok (some status),
          (left.1, if before.1.engine.finished then left.2 else note left.2 left.1 status))
      | (.ok none, left) => (.ok none, left)
      | (.error fault, left) => (.error fault, left) := by
  have found : Session.current before = (.ok before.1, before) := rfl
  rw [burst, bind_apply, found]
  dsimp only
  rw [bind_apply]
  rcases Command.resume limit fuel before with ⟨fault | _ | status, left⟩
  · rfl
  · rfl
  · cases before.1.engine.finished <;> rfl

theorem resume_of_empty (fuel : Nat) (before : Session × Console) :
    Command.resume (some .empty) fuel before =
      if before.1.engine.finished then Session.resume listeners fuel before
      else (.error .emptyLimit, before) := by
  change (if before.1.engine.finished then Session.resume listeners fuel
    else throw .emptyLimit : Action (Option Status)) before = _
  split <;> rfl

theorem exists_entry (resumed : Command.resume limit fuel before = (.ok (some status), after)) :
    ∃ entry : Session.Entry, entry.perform listeners before = (.ok (some status), after) := by
  match limit with
  | none => exact ⟨.resume fuel, resumed⟩
  | some (.given count) => exact ⟨.resumeFor count.toNat, resumed⟩
  | some .empty =>
    rw [resume_of_empty] at resumed
    split at resumed
    · exact ⟨.resume fuel, resumed⟩
    · cases resumed

/-- A burst ends with a status, if it may take long enough. -/
def Bursts (limit : Option (Value Int)) (before : Session × Console) (status : Status)
    (after : Session × Console) : Prop :=
  ∃ enough, ∀ fuel, enough ≤ fuel → burst limit fuel before = (.ok (some status), after)

/-- A burst that has ended takes no longer than it may. -/
theorem bursts_of_burst (ran : burst limit fuel before = (.ok (some status), after)) :
    Bursts limit before status after := by
  refine ⟨fuel, fun more enough => ?_⟩
  have longer {left : Session × Console} {status : Status}
      (resumed : Command.resume limit fuel before = (.ok (some status), left)) :
      Command.resume limit more before = (.ok (some status), left) := by
    match limit with
    | none => exact Session.resume_of_le resumed enough
    | some (.given count) => exact resumed
    | some .empty =>
      rw [resume_of_empty] at resumed ⊢
      split at resumed
      · next finished =>
        rw [if_pos finished]
        exact Session.resume_of_le resumed enough
      · cases resumed
  rw [burst_apply] at ran ⊢
  rcases resumed : Command.resume limit fuel before with ⟨fault | _ | status', left⟩
  · rw [resumed] at ran
    cases ran
  · rw [resumed] at ran
    cases ran
  · rw [resumed] at ran
    rw [longer resumed]
    exact ran

/-- The command ends with an exit code, if it may take long enough. -/
def Returns (limit : Option (Value Int)) (before : Session × Console) (code : Nat)
    (final : Session × Console) : Prop :=
  ∃ enough, ∀ fuel, enough ≤ fuel → drive limit fuel fuel before = (.ok (some code), final)

theorem Returns.unique {code' : Nat} {final' : Session × Console}
    (returns : Returns limit before code final) (returns' : Returns limit before code' final') :
    code = code' ∧ final = final' := by
  obtain ⟨enough, driven⟩ := returns
  obtain ⟨enough', driven'⟩ := returns'
  have same := (driven (max enough enough') (Nat.le_max_left _ _)).symm.trans
    (driven' (max enough enough') (Nat.le_max_right _ _))
  cases same
  exact ⟨rfl, rfl⟩

/-- How the command goes on until it ends, from one burst to the next. -/
inductive Course (limit : Option (Value Int)) :
    Session × Console → Nat → Session × Console → Prop where
  | halted {before after : Session × Console} (ran : Bursts limit before .halted after) :
      Course limit before 0 after
  | failed {before after : Session × Console} {underflow : Underflow}
      (ran : Bursts limit before (.failed underflow) after) :
      Course limit before 1
        (after.1, after.2.print ("\nRuntime error: " ++ underflow.message ++ "\n"))
  | stopped {before after : Session × Console} (ran : Bursts limit before .running after) :
      Course limit before 3 (after.1, after.2.print (stoppedText limit))
  | declined {before after : Session × Console} {index : Int}
      (ran : Bursts limit before (.pausedForStep index) after) : Course limit before 0 after
  | quit {before after final : Session × Console} {index : Int}
      (ran : Bursts limit before (.pausedAtBreakpoint index) after)
      (asked : question index after = (.ok false, final)) : Course limit before 0 final
  | resumed {before after next final : Session × Console} {index : Int} {code : Nat}
      (ran : Bursts limit before (.pausedAtBreakpoint index) after)
      (asked : question index after = (.ok true, next)) (rest : Course limit next code final) :
      Course limit before code final

theorem Course.drives (course : Course limit before code final) :
    ∃ enough, ∀ fuel rounds, enough ≤ fuel → enough ≤ rounds →
      drive limit fuel rounds before = (.ok (some code), final) := by
  have last {before after final : Session × Console} {status : Status} {code : Nat}
      (ran : Bursts limit before status after)
      (told : ∀ fuel rounds, burst limit fuel before = (.ok (some status), after) →
        drive limit fuel (rounds + 1) before = (.ok (some code), final)) :
      ∃ enough, ∀ fuel rounds, enough ≤ fuel → enough ≤ rounds →
        drive limit fuel rounds before = (.ok (some code), final) := by
    obtain ⟨enough, ran⟩ := ran
    refine ⟨enough + 1, fun fuel rounds enough' turns => ?_⟩
    obtain ⟨rounds, rfl⟩ := Nat.exists_eq_add_one.mpr (Nat.lt_of_lt_of_le (by omega) turns)
    exact told fuel rounds (ran fuel (by omega))
  induction course with
  | halted ran | failed ran | stopped ran | declined ran =>
    refine last ran fun fuel rounds ran => ?_
    rw [drive, bind_apply, ran]
    rfl
  | quit ran asked =>
    refine last ran fun fuel rounds ran => ?_
    rw [drive_of_paused ran, bind_apply, asked]
    rfl
  | @resumed before after next final index code ran asked _ ih =>
    obtain ⟨enough, ran⟩ := ran
    obtain ⟨enough', rest⟩ := ih
    refine ⟨enough + enough' + 1, fun fuel rounds large turns => ?_⟩
    obtain ⟨rounds, rfl⟩ := Nat.exists_eq_add_one.mpr (Nat.lt_of_lt_of_le (by omega) turns)
    rw [drive_of_paused (ran fuel (by omega)), bind_apply, asked]
    exact rest fuel rounds (by omega) (by omega)

theorem course_of_drive (driven : drive limit fuel rounds before = (.ok (some code), final)) :
    Course limit before code final := by
  induction rounds generalizing before with
  | zero => cases driven
  | succ rounds ih =>
    rcases ended : burst limit fuel before with ⟨fault | _ | status, after⟩
    · rw [drive, bind_apply, ended] at driven
      cases driven
    · rw [drive, bind_apply, ended] at driven
      cases driven
    · have ran := bursts_of_burst ended
      cases status with
      | pausedAtBreakpoint index =>
        rw [drive_of_paused ended] at driven
        obtain ⟨agreed, next, asked, later⟩ := bind_eq_ok driven
        cases agreed with
        | true => exact .resumed ran asked (ih later)
        | false =>
          cases later
          exact .quit ran asked
      | halted =>
        rw [drive, bind_apply, ended] at driven
        cases driven
        exact .halted ran
      | failed underflow =>
        rw [drive, bind_apply, ended] at driven
        cases driven
        exact .failed ran
      | running =>
        rw [drive, bind_apply, ended] at driven
        cases driven
        exact .stopped ran
      | pausedForStep index =>
        rw [drive, bind_apply, ended] at driven
        cases driven
        exact .declined ran

/-- The command returns exactly where its course leads. -/
theorem returns_iff_course : Returns limit before code final ↔ Course limit before code final := by
  constructor
  · rintro ⟨enough, driven⟩
    exact course_of_drive (driven enough (Nat.le_refl enough))
  · intro course
    obtain ⟨enough, driven⟩ := course.drives
    exact ⟨enough, fun fuel large => driven fuel fuel large large⟩

theorem Course.ne_two (course : Course limit before code final) : code ≠ 2 := by
  induction course with
  | resumed _ _ _ ih => exact ih
  | halted | failed | stopped | declined | quit => decide

end Brainfuck.Command
