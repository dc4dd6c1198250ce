import Brainfuck.Proofs.Session.Executing

/-! Calls on a session. A call completes instructions one after another, and ends where it returns
or where an instruction raises a fault. -/

namespace Brainfuck.Session

variable {World : Type} {listeners : Listeners World} {blocking : Bool} {status : Status}
  {before middle point after : Session × World} {fault : Fault}

/-- A run executes the next instruction here. -/
structure Ready (session : Session) : Prop where
  running : session.engine.finished = false
  eager : session.interrupted = false

theorem boundary_apply (state : Session × World) :
    boundary state =
      if state.1.engine.finished then (.ok (some state.1.engine.status), state)
      else if state.1.interrupted then
        (.ok (some .running), ({ state.1 with interrupted := false }, state.2))
      else (.ok none, state) := by
  change (if state.1.engine.finished then return some state.1.engine.status
    else if state.1.interrupted then do
      update fun session => { session with interrupted := false }
      return some .running
    else return none : Action World (Option Status)) state = _
  split
  · rfl
  · split <;> rfl

theorem boundary_of_ready (ready : before.1.Ready) : boundary before = (.ok none, before) := by
  rw [boundary_apply, ready.running, ready.eager]
  rfl

theorem boundary_of_not_ready (unready : ¬ before.1.Ready) :
    ∃ status after, boundary before = (.ok (some status), after) := by
  rw [boundary_apply]
  split
  · exact ⟨_, _, rfl⟩
  · next running =>
    split
    · exact ⟨_, _, rfl⟩
    · next eager => exact absurd ⟨by simpa using running, by simpa using eager⟩ unready

theorem run_succ_of_ready (ready : before.1.Ready) (allowance : Nat) :
    run listeners (allowance + 1) before =
      (do
        let status ← advance listeners true
        if status.isPause then return some status else run listeners allowance) before := by
  rw [run, bind_apply, boundary_of_ready ready]

theorem run_of_not_ready (unready : ¬ before.1.Ready) (allowance : Nat) :
    run listeners allowance before = boundary before := by
  cases allowance with
  | zero => rfl
  | succ allowance =>
    obtain ⟨status, after, ended⟩ := boundary_of_not_ready unready
    rw [run, bind_apply, ended]
    rfl

/-- A run completes a number of instructions, and neither ends nor pauses behind any of them. -/
inductive Completed (listeners : Listeners World) : Nat → Session × World → Session × World → Prop
  where
  | refl (state : Session × World) : Completed listeners 0 state state
  | next {count : Nat} {before middle after : Session × World} {status : Status}
      (ready : before.1.Ready) (advanced : advance listeners true before = (.ok status, middle))
      (goesOn : status.isPause = false) (rest : Completed listeners count middle after) :
      Completed listeners (count + 1) before after

/-- A run goes on from where it has come to, with what is left of its allowance. -/
theorem Completed.run {count : Nat} (completed : Completed listeners count before point)
    (more : Nat) :
    Session.run listeners (count + more) before = Session.run listeners more point := by
  induction completed with
  | refl state => rw [Nat.zero_add]
  | @next count before middle after status ready advanced goesOn rest ih =>
    rw [Nat.add_right_comm, run_succ_of_ready ready, bind_apply, advanced]
    change (if _ then _ else Session.run listeners (count + more)) middle = _
    rw [goesOn]
    exact ih

theorem run_eq_error_iff {allowance : Nat} :
    run listeners allowance before = (.error fault, after) ↔
      ∃ count point, count < allowance ∧ Completed listeners count before point ∧
        point.1.Ready ∧ advance listeners true point = (.error fault, after) := by
  constructor
  · intro raised
    induction allowance generalizing before with
    | zero =>
      rw [run, boundary_apply] at raised
      split at raised
      · cases raised
      · split at raised <;> cases raised
    | succ allowance ih =>
      by_cases ready : before.1.Ready
      · rw [run_succ_of_ready ready] at raised
        rcases bind_eq_error raised with stuck | ⟨status, middle, advanced, later⟩
        · exact ⟨0, before, by omega, .refl before, ready, stuck⟩
        · cases goesOn : status.isPause with
          | true =>
            rw [goesOn] at later
            cases later
          | false =>
            rw [goesOn] at later
            obtain ⟨count, point, within, completed, ready', stuck⟩ := ih later
            exact ⟨count + 1, point, by omega, .next ready advanced goesOn completed, ready',
              stuck⟩
      · obtain ⟨status, ended, returned⟩ := boundary_of_not_ready ready
        rw [run_of_not_ready ready, returned] at raised
        cases raised
  · rintro ⟨count, point, within, completed, ready, stuck⟩
    obtain ⟨more, rfl⟩ := Nat.exists_eq_add_of_lt within
    rw [Nat.add_assoc, completed.run, run_succ_of_ready ready, bind_apply, stuck]

theorem ready_of_run_eq_none {allowance : Nat}
    (ended : run listeners allowance before = (.ok none, after)) : before.1.Ready := by
  by_cases ready : before.1.Ready
  · exact ready
  · obtain ⟨status, left, returned⟩ := boundary_of_not_ready ready
    rw [run_of_not_ready ready, returned] at ended
    cases ended

/-- A run ends without a status exactly if it has used up its allowance and would go on. -/
theorem run_eq_none_iff {allowance : Nat} :
    run listeners allowance before = (.ok none, after) ↔
      Completed listeners allowance before after ∧ after.1.Ready := by
  constructor
  · intro ended
    induction allowance generalizing before with
    | zero =>
      have ready := ready_of_run_eq_none ended
      rw [run, boundary_of_ready ready] at ended
      cases ended
      exact ⟨.refl _, ready⟩
    | succ allowance ih =>
      have ready := ready_of_run_eq_none ended
      rw [run_succ_of_ready ready] at ended
      obtain ⟨status, middle, advanced, later⟩ := bind_eq_ok ended
      cases goesOn : status.isPause with
      | true =>
        rw [goesOn] at later
        cases later
      | false =>
        rw [goesOn] at later
        obtain ⟨rest, ready'⟩ := ih later
        exact ⟨.next ready advanced goesOn rest, ready'⟩
  · rintro ⟨completed, ready⟩
    have ended := completed.run 0
    rwa [Nat.add_zero, run, boundary_of_ready ready] at ended

theorem run_of_le {allowance more : Nat} {result : Except Fault (Option Status)}
    (ended : run listeners allowance before = (result, after)) (decided : result ≠ .ok none)
    (enough : allowance ≤ more) : run listeners more before = (result, after) := by
  induction allowance generalizing before more with
  | zero =>
    have unready : ¬ before.1.Ready := by
      intro ready
      rw [run, boundary_of_ready ready] at ended
      cases ended
      exact decided rfl
    rw [run_of_not_ready unready] at ended ⊢
    exact ended
  | succ allowance ih =>
    obtain ⟨more, rfl⟩ : ∃ less, more = less + 1 := ⟨more - 1, by omega⟩
    by_cases ready : before.1.Ready
    · rw [run_succ_of_ready ready, bind_apply] at ended ⊢
      generalize advance listeners true before = outcome at ended ⊢
      obtain ⟨result', middle⟩ := outcome
      cases result' with
      | error reason => exact ended
      | ok status =>
        cases pauses : status.isPause with
        | true =>
          simp only [pauses, if_true] at ended ⊢
          exact ended
        | false =>
          simp only [pauses, Bool.false_eq_true, if_false] at ended ⊢
          exact ih ended (by omega)
    · rw [run_of_not_ready ready] at ended ⊢
      exact ended

/-- A limited run ends like a longer one, or it is on its way. -/
theorem run_limited {fuel : Nat} {status : Status}
    (ended : run listeners fuel before = (.ok (some status), after)) (count : Nat) :
    run listeners count before = (.ok (some status), after) ∨
      ∃ point, run listeners count before = (.ok none, point) ∧
        run listeners fuel point = (.ok (some status), after) := by
  rcases limited : run listeners count before with ⟨fault | status?, left⟩
  · have same := (run_of_le limited (by simp) (Nat.le_add_right count fuel)).symm.trans
      (run_of_le ended (by simp) (Nat.le_add_left fuel count))
    cases same
  · cases status? with
    | none =>
      refine .inr ⟨left, rfl, ?_⟩
      rw [← (run_eq_none_iff.mp limited).1.run fuel]
      exact run_of_le ended (by simp) (Nat.le_add_left fuel count)
    | some status' =>
      exact .inl ((run_of_le limited (by simp) (Nat.le_add_right count fuel)).symm.trans
        (run_of_le ended (by simp) (Nat.le_add_left fuel count)))

/-- A call that makes a session execute instructions. -/
inductive Entry where
  | resume (fuel : Nat)
  | resumeFor (count : Nat)
  | stepOnce

namespace Entry

/-- There is no status if the fuel of a run does not suffice. -/
def perform (listeners : Listeners World) : Entry → Action World (Option Status)
  | resume fuel => Session.resume listeners fuel
  | resumeFor count => some <$> Session.resumeFor listeners count
  | stepOnce => some <$> Session.stepOnce listeners

/-- What a call does once it has been accepted. -/
def body (listeners : Listeners World) : Entry → Action World (Option Status)
  | resume fuel => run listeners fuel
  | resumeFor count => (fun ended => some (ended.getD .running)) <$> run listeners count
  | stepOnce => some <$> advance listeners false

/-- How many instructions a run may execute. -/
def allowance? : Entry → Option Nat
  | resume fuel => some fuel
  | resumeFor count => some count
  | stepOnce => none

/-- Only a run may wait for the operator. -/
def waits (entry : Entry) : Bool := entry.allowance?.isSome

end Entry

def enter (state : Session × World) : Session × World := ({ state.1 with active := true }, state.2)

/-- The session no longer executes instructions; a status may have come of it. -/
def leave (state : Session × World) (status? : Option Status) : Session × World :=
  ({ state.1 with active := false, status := status?.getD state.1.status }, state.2)

section exclusively

variable {Result : Type} {status? : Result → Option Status} {action : Action World Result}

theorem exclusively_of_active (active : before.1.active = true) :
    exclusively status? action before = (.error .alreadyStepping, before) := by
  obtain ⟨session, world⟩ := before
  simp only [exclusively]
  exact if_pos active

theorem exclusively_of_idle (idle : before.1.active = false) :
    exclusively status? action before =
      match action (enter before) with
      | (.ok result, left) => (.ok result, Session.leave left (status? result))
      | (.error fault, left) => (.error fault, Session.leave left none) := by
  obtain ⟨session, world⟩ := before
  have idle' : ¬ session.active = true := by simp [show session.active = false from idle]
  simp only [exclusively, if_neg idle', enter]
  rcases action ({ session with active := true }, world) with ⟨fault | result, left⟩ <;> rfl

end exclusively

theorem stepOnce_of_idle (idle : before.1.active = false) :
    stepOnce listeners before =
      match advance listeners false (enter before) with
      | (.ok status, left) => (.ok status, leave left (some status))
      | (.error fault, left) => (.error fault, leave left none) := by
  rw [stepOnce, exclusively_of_idle idle]
  rcases advance listeners false (enter before) with ⟨fault | status, left⟩ <;> rfl

/-- What a limited call makes of the outcome of its run. -/
def limited : Except Fault (Option Status) × Session × World →
    Except Fault Status × Session × World
  | (.ok status?, left) =>
    (.ok (status?.getD .running), leave left (some (status?.getD .running)))
  | (.error fault, left) => (.error fault, leave left none)

theorem resumeFor_of_idle (idle : before.1.active = false) (count : Nat) :
    resumeFor listeners count before = limited (run listeners count (enter before)) := by
  rw [resumeFor, exclusively_of_idle idle, map_apply]
  rcases run listeners count (enter before) with ⟨fault | status?, left⟩ <;> rfl

theorem resume_of_idle (idle : before.1.active = false) (fuel : Nat) :
    resume listeners fuel before =
      match run listeners fuel (enter before) with
      | (.ok status?, left) => (.ok status?, leave left status?)
      | (.error fault, left) => (.error fault, leave left none) := by
  rw [resume, exclusively_of_idle idle]
  rcases run listeners fuel (enter before) with ⟨fault | status?, left⟩ <;> rfl

/-- A call has completed a number of instructions and is about to execute the next. -/
inductive Entry.Stands (listeners : Listeners World) (before : Session × World) :
    Entry → Nat → Session × World → Prop where
  | run {entry : Entry} {allowance count : Nat} {point : Session × World}
      (allowed : entry.allowance? = some allowance) (within : count < allowance)
      (completed : Completed listeners count (enter before) point) (ready : point.1.Ready) :
      Stands listeners before entry count point
  | stepOnce (running : before.1.engine.finished = false) :
      Stands listeners before .stepOnce 0 (enter before)

theorem map_eq_error_iff {First Second : Type} {change : First → Second}
    {action : Action World First} :
    (change <$> action) before = (.error fault, after) ↔ action before = (.error fault, after) := by
  rw [map_apply]
  constructor
  · intro raised
    cases ended : action before with
    | mk result left =>
      rw [ended] at raised
      cases result with
      | ok value => cases raised
      | error reason =>
        cases raised
        rfl
  · intro raised
    rw [raised]

theorem Entry.stands_iff_of_allowed {entry : Entry} {allowance count : Nat}
    (allowed : entry.allowance? = some allowance) :
    entry.Stands listeners before count point ↔
      count < allowance ∧ Completed listeners count (enter before) point ∧ point.1.Ready := by
  constructor
  · intro stands
    cases stands with
    | run allowed' within completed ready =>
      cases allowed.symm.trans allowed'
      exact ⟨within, completed, ready⟩
    | stepOnce => cases allowed
  · rintro ⟨within, completed, ready⟩
    exact .run allowed within completed ready

theorem Entry.Stands.running {entry : Entry} {count : Nat}
    (stands : entry.Stands listeners before count point) : point.1.engine.finished = false := by
  cases stands with
  | run _ _ _ ready => exact ready.running
  | stepOnce running => exact running

/-- What becomes of an idle session once a call has done what it does. -/
def closed : Except Fault (Option Status) × Session × World →
    Except Fault (Option Status) × Session × World
  | (.ok status?, left) => (.ok status?, leave left status?)
  | (.error fault, left) => (.error fault, leave left none)

theorem closed_idle (outcome : Except Fault (Option Status) × Session × World) :
    (closed outcome).2.1.active = false := by
  rcases outcome with ⟨status? | fault, left⟩ <;> rfl

theorem closed_engine (outcome : Except Fault (Option Status) × Session × World) :
    (closed outcome).2.1.engine = outcome.2.1.engine := by
  rcases outcome with ⟨status? | fault, left⟩ <;> rfl

theorem closed_interrupted (outcome : Except Fault (Option Status) × Session × World) :
    (closed outcome).2.1.interrupted = outcome.2.1.interrupted := by
  rcases outcome with ⟨status? | fault, left⟩ <;> rfl

theorem closed_eq_error_iff {outcome : Except Fault (Option Status) × Session × World} :
    closed outcome = (.error fault, after) ↔
      ∃ left, outcome = (.error fault, left) ∧ after = leave left none := by
  constructor
  · intro raised
    rcases outcome with ⟨reason | status?, left⟩
    · cases raised
      exact ⟨left, rfl, rfl⟩
    · cases raised
  · rintro ⟨left, rfl, rfl⟩
    rfl

theorem closed_eq_ok_iff {outcome : Except Fault (Option Status) × Session × World}
    {status? : Option Status} :
    closed outcome = (.ok status?, after) ↔
      ∃ left, outcome = (.ok status?, left) ∧ after = leave left status? := by
  constructor
  · intro returned
    rcases outcome with ⟨fault | status?, left⟩
    · cases returned
    · cases returned
      exact ⟨left, rfl, rfl⟩
  · rintro ⟨left, rfl, rfl⟩
    rfl

theorem Entry.perform_of_idle (idle : before.1.active = false) (entry : Entry) :
    entry.perform listeners before = closed (entry.body listeners (enter before)) := by
  cases entry with
  | resume fuel =>
    rw [perform, resume_of_idle idle, body]
    rcases run listeners fuel (enter before) with ⟨status? | fault, left⟩ <;> rfl
  | resumeFor count =>
    rw [perform, map_apply, resumeFor_of_idle idle, body, map_apply]
    rcases run listeners count (enter before) with ⟨status? | fault, left⟩ <;> rfl
  | stepOnce =>
    rw [perform, map_apply, stepOnce_of_idle idle, body, map_apply]
    rcases advance listeners false (enter before) with ⟨status | fault, left⟩ <;> rfl

theorem Entry.perform_of_active (active : before.1.active = true) (entry : Entry) :
    entry.perform listeners before = (.error .alreadyStepping, before) := by
  cases entry with
  | resume fuel => exact exclusively_of_active active
  | resumeFor count => exact map_eq_error_iff.mpr (exclusively_of_active active)
  | stepOnce => exact map_eq_error_iff.mpr (exclusively_of_active active)

theorem resume_of_le {fuel more : Nat}
    (resumed : resume listeners fuel before = (.ok (some status), after)) (enough : fuel ≤ more) :
    resume listeners more before = (.ok (some status), after) := by
  cases active : before.1.active with
  | true =>
    have refused : resume listeners fuel before = (.error .alreadyStepping, before) :=
      (Entry.resume fuel).perform_of_active active
    rw [refused] at resumed
    cases resumed
  | false =>
    have accepted (fuel : Nat) : resume listeners fuel before =
        closed (run listeners fuel (enter before)) := (Entry.resume fuel).perform_of_idle active
    rw [accepted] at resumed ⊢
    obtain ⟨left, ended, rfl⟩ := closed_eq_ok_iff.mp resumed
    rw [run_of_le ended (by simp) enough]
    rfl

theorem Entry.idle_perform (idle : before.1.active = false) (entry : Entry) :
    (entry.perform listeners before).2.1.active = false := by
  rw [entry.perform_of_idle idle]
  exact closed_idle _

theorem Entry.body_eq_error_iff (entry : Entry) :
    entry.body listeners (enter before) = (.error fault, after) ↔
      ∃ count point, entry.Stands listeners before count point ∧
        advance listeners entry.waits point = (.error fault, after) := by
  have runs {entry : Entry} {allowance : Nat} (allowed : entry.allowance? = some allowance) :
      run listeners allowance (enter before) = (.error fault, after) ↔
        ∃ count point, entry.Stands listeners before count point ∧
          advance listeners true point = (.error fault, after) := by
    simp only [run_eq_error_iff, stands_iff_of_allowed allowed, and_assoc]
  cases entry with
  | resume fuel => exact runs rfl
  | resumeFor limit => exact map_eq_error_iff.trans (runs rfl)
  | stepOnce =>
    rw [body, map_eq_error_iff]
    constructor
    · intro raised
      have running : (enter before).1.engine.finished = false := running_of_raised raised
      exact ⟨0, enter before, .stepOnce running, raised⟩
    · rintro ⟨count, point, stands, raised⟩
      cases stands with
      | run allowed => cases allowed
      | stepOnce => exact raised

/-- A call on an idle session raises what the instruction raises that it has come to. -/
theorem Entry.perform_eq_error_iff (idle : before.1.active = false) (entry : Entry) :
    entry.perform listeners before = (.error fault, after) ↔
      ∃ count point left, entry.Stands listeners before count point ∧
        advance listeners entry.waits point = (.error fault, left) ∧ after = leave left none := by
  rw [entry.perform_of_idle idle]
  refine closed_eq_error_iff.trans ⟨?_, ?_⟩
  · rintro ⟨left, raised, rfl⟩
    obtain ⟨count, point, stands, raised⟩ := entry.body_eq_error_iff.mp raised
    exact ⟨count, point, left, stands, raised, rfl⟩
  · rintro ⟨count, point, left, stands, raised, rfl⟩
    exact ⟨left, entry.body_eq_error_iff.mpr ⟨count, point, stands, raised⟩, rfl⟩

/-- A state that calls lead to, whether they return or raise. Between them the session may be
asked to stop. -/
inductive Reached (listeners : Listeners World) (fresh : Session × World) : Session × World → Prop
  where
  | fresh : Reached listeners fresh fresh
  | returned {state after : Session × World} {entry : Entry} {status : Status}
      (reached : Reached listeners fresh state)
      (returned : entry.perform listeners state = (.ok (some status), after)) :
      Reached listeners fresh after
  | raised {state after : Session × World} {entry : Entry} {fault : Fault}
      (reached : Reached listeners fresh state)
      (raised : entry.perform listeners state = (.error fault, after)) :
      Reached listeners fresh after
  | interrupted {state : Session × World} (reached : Reached listeners fresh state) :
      Reached listeners fresh ({ state.1 with interrupted := true }, state.2)

theorem Reached.idle {fresh : Session × World} (reached : Reached listeners fresh before)
    (idle : fresh.1.active = false) : before.1.active = false := by
  induction reached with
  | fresh => exact idle
  | @returned state after entry _ _ ended ih =>
    have left : (entry.perform listeners state).2.1.active = false := entry.idle_perform ih
    rwa [ended] at left
  | @raised state after entry _ _ ended ih =>
    have left : (entry.perform listeners state).2.1.active = false := entry.idle_perform ih
    rwa [ended] at left
  | interrupted _ ih => exact ih

end Brainfuck.Session
