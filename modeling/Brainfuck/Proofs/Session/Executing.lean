import Brainfuck.Proofs.Stepping
import Brainfuck.Session

/-! One instruction of a session is executed, shown and settled. It ends where it returns, or
where a callback raises a fault. Nothing else raises, unless the engine itself has no answer. -/

namespace Brainfuck.Session

variable {World : Type} {listeners : Listeners World} {blocking : Bool} {index : Int}
  {engine : Engine} {status : Status} {mode : DebugMode} {seen : Option Observation}
  {before middle point after : Session × World} {fault : Fault}

/-- Whether the action returns or raises, it leads from sessions of an invariant to sessions of
it. -/
def Maintains {Result : Type} (invariant : Session → Prop) (action : Action World Result) : Prop :=
  ∀ state : Session × World, invariant state.1 → invariant (action state).2.1

namespace Maintains

variable {Result Next : Type} {invariant : Session → Prop} {first : Action World Result}
  {second : Result → Action World Next}

theorem pure (result : Result) : Maintains invariant (Pure.pure result : Action World Result) :=
  fun _ holds => holds

theorem bind (begins : Maintains invariant first)
    (continues : ∀ value, Maintains invariant (second value)) :
    Maintains invariant (first >>= second) := by
  intro state holds
  have left := begins state holds
  rw [bind_apply]
  rcases ended : first state with ⟨fault | value, middle⟩
  · simpa [ended] using left
  · rw [ended] at left
    exact continues value middle left

end Maintains

def withEngine (state : Session × World) (engine : Engine) : Session × World :=
  ({ state.1 with engine }, state.2)

section execute

theorem execute_of_finished (finished : before.1.engine.finished = true) :
    execute listeners before = (.ok before.1.engine.status, before) := by
  change (if before.1.engine.finished = true then return before.1.engine.status else _ :
    Action World Status) before = _
  rw [if_pos finished]
  rfl

theorem execute_of_running (running : before.1.engine.finished = false) :
    execute listeners before =
      (match before.1.engine.react with
      | .error fault => throw fault
      | .ok (.silent next) => install next
      | .ok (.write value next) => do
        listeners.output value
        install (next (← current).engine)
      | .ok (.read next) => do
        let value ← listeners.input
        match next (← current).engine value with
        | .error fault => throw fault
        | .ok engine => install engine : Action World Status) before := by
  change (if before.1.engine.finished = true then return before.1.engine.status else _ :
    Action World Status) before = _
  exact congrFun (if_neg (by simp [running])) before

theorem execute_of_error (running : before.1.engine.finished = false)
    (reaction : before.1.engine.react = .error fault) :
    execute listeners before = (.error fault, before) := by
  rw [execute_of_running running, reaction]
  rfl

theorem execute_of_silent {next : Engine} (running : before.1.engine.finished = false)
    (reaction : before.1.engine.react = .ok (.silent next)) :
    execute listeners before = (.ok next.status, withEngine before next) := by
  rw [execute_of_running running, reaction]
  rfl

theorem execute_of_write {value : UInt8} {next : Engine → Engine}
    (running : before.1.engine.finished = false)
    (reaction : before.1.engine.react = .ok (.write value next)) :
    execute listeners before =
      (do
        listeners.output value
        install (next (← current).engine) : Action World Status) before := by
  rw [execute_of_running running, reaction]

theorem execute_of_read {next : Engine → Option Int → Except Fault Engine}
    (running : before.1.engine.finished = false)
    (reaction : before.1.engine.react = .ok (.read next)) :
    execute listeners before =
      (do
        let value ← listeners.input
        match next (← current).engine value with
        | .error fault => throw fault
        | .ok engine => install engine : Action World Status) before := by
  rw [execute_of_running running, reaction]

end execute

/-- What the next instruction writes or reads leaves the session with the same engine. -/
structure Listeners.Still (listeners : Listeners World) (before : Session × World) : Prop where
  output : ∀ {value next middle}, before.1.engine.react = .ok (.write value next) →
    listeners.output value before = (.ok (), middle) → middle.1.engine = before.1.engine
  input : ∀ {next value middle}, before.1.engine.react = .ok (.read next) →
    listeners.input before = (.ok value, middle) → middle.1.engine = before.1.engine

/-- Where its callbacks leave the engine alone, a session makes a step of it. -/
theorem Listeners.Still.execute_eq (still : listeners.Still before) :
    execute listeners before =
      match before.1.engine.step listeners.output listeners.input before with
      | (.ok engine, middle) => (.ok engine.status, withEngine middle engine)
      | (.error fault, left) => (.error fault, left) := by
  cases finished : before.1.engine.finished with
  | true =>
    rw [execute_of_finished finished, Engine.step_of_finished finished]
    rfl
  | false =>
    cases reaction : before.1.engine.react with
    | error fault =>
      rw [execute_of_error finished reaction, Engine.step_of_error finished reaction]
      rfl
    | ok reacted =>
      cases reacted with
      | silent next =>
        rw [execute_of_silent finished reaction, Engine.step_of_silent finished reaction]
        rfl
      | write value next =>
        rw [execute_of_write finished reaction, Engine.step_of_write finished reaction, bind_apply,
          bind_apply]
        rcases called : listeners.output value before with ⟨fault | _, left⟩
        · rfl
        · change install (next left.1.engine) left = _
          rw [still.output reaction called]
          rfl
      | read next =>
        rw [execute_of_read finished reaction, Engine.step_of_read finished reaction, bind_apply,
          bind_apply]
        rcases called : listeners.input before with ⟨fault | value, left⟩
        · rfl
        · change (match next left.1.engine value with
            | .error fault => throw fault
            | .ok engine => install engine : Action World Status) left = _
          rw [still.input reaction called]
          change _ = match (match next before.1.engine value with
            | .error fault => throw fault
            | .ok engine => pure engine : Action World Engine) left with
            | (Except.ok engine, middle) => (Except.ok engine.status, withEngine middle engine)
            | (Except.error fault, left) => (Except.error fault, left)
          cases next before.1.engine value <;> rfl

theorem Listeners.Still.executed (still : listeners.Still before)
    (stepped : before.1.engine.step listeners.output listeners.input before =
      (.ok engine, middle)) :
    execute listeners before = (.ok engine.status, withEngine middle engine) := by
  rw [still.execute_eq, stepped]

theorem Listeners.Still.stepped (still : listeners.Still before)
    (executed : execute listeners before = (.ok status, after)) :
    ∃ engine middle, before.1.engine.step listeners.output listeners.input before =
      (.ok engine, middle) ∧ status = engine.status ∧ after = withEngine middle engine := by
  rw [still.execute_eq] at executed
  rcases stepped : before.1.engine.step listeners.output listeners.input before with
    ⟨fault | engine, middle⟩
  · rw [stepped] at executed
    cases executed
  · rw [stepped] at executed
    cases executed
    exact ⟨engine, middle, rfl, rfl, rfl⟩

theorem advance_of_finished (finished : before.1.engine.finished = true) :
    advance listeners blocking before = (.ok before.1.engine.status, before) := by
  change (if before.1.engine.finished = true then return before.1.engine.status else _ :
    Action World Status) before = _
  rw [if_pos finished]
  rfl

theorem advance_of_running (running : before.1.engine.finished = false) :
    advance listeners blocking before =
      (execute listeners >>= attend listeners blocking before.1.engine.ip) before := by
  change (if before.1.engine.finished = true then return before.1.engine.status else _ :
    Action World Status) before = _
  rw [if_neg (by simp [running])]

theorem running_of_raised (raised : advance listeners blocking before = (.error fault, after)) :
    before.1.engine.finished = false := by
  cases finished : before.1.engine.finished with
  | false => rfl
  | true =>
    rw [advance_of_finished finished] at raised
    cases raised

theorem advance_of_executed (running : before.1.engine.finished = false)
    (executed : execute listeners before = (.ok status, middle)) :
    advance listeners blocking before =
      attend listeners blocking before.1.engine.ip status middle := by
  rw [advance_of_running running, bind_apply, executed]

theorem executed_of_advance (running : before.1.engine.finished = false)
    (advances : advance listeners blocking before = (.ok status, after)) :
    ∃ left middle, execute listeners before = (.ok left, middle) ∧
      attend listeners blocking before.1.engine.ip left middle = (.ok status, after) := by
  rw [advance_of_running running] at advances
  exact bind_eq_ok advances

theorem Listeners.Still.stepped_of_advance (still : listeners.Still before)
    (running : before.1.engine.finished = false)
    (advances : advance listeners blocking before = (.ok status, after)) :
    ∃ engine middle,
      before.1.engine.step listeners.output listeners.input before = (.ok engine, middle) ∧
        attend listeners blocking before.1.engine.ip engine.status (withEngine middle engine) =
          (.ok status, after) := by
  obtain ⟨_, _, executed, attended⟩ := executed_of_advance running advances
  obtain ⟨engine, middle, stepped, rfl, rfl⟩ := still.stepped executed
  exact ⟨engine, middle, stepped, attended⟩

theorem failed_or_unfailed (status : Status) :
    (∃ underflow, status = .failed underflow) ∨ ∀ underflow, status ≠ .failed underflow := by
  rcases Classical.em (∃ underflow, status = .failed underflow) with failed | unfailed
  · exact .inl failed
  · exact .inr fun underflow failed => unfailed ⟨underflow, failed⟩

theorem attend_of_failed (underflow : Underflow) :
    attend listeners blocking index (.failed underflow) = return .failed underflow := rfl

theorem attend_of_unfailed (unfailed : ∀ underflow, status ≠ .failed underflow)
    (state : Session × World) :
    attend listeners blocking index status state =
      (report listeners state.1.options.mode >>=
        settle listeners blocking index status state.1.options.mode) state := by
  unfold attend
  split
  · exact absurd rfl (unfailed _)
  · rfl

section showing

variable {state : Session × World} {observer : Observation → Action World Unit}
  {acknowledge : Observation → Action World Bool} {observation : Observation}

theorem look_apply (state : Session × World) :
    look state =
      match state.1.observe with
      | some observation => (.ok observation, state)
      | none => (.error .outOfRange, state) := by
  change (match state.1.observe with
    | some observation => return observation
    | none => throw .outOfRange : Action World Observation) state = _
  cases state.1.observe <;> rfl

theorem report_of_unheard (unheard : mode = .silent ∨ listeners.observer = none) :
    report listeners mode = return none := by
  rcases unheard with rfl | unheard
  · rfl
  · unfold report
    rw [unheard]
    cases mode <;> rfl

theorem report_of_heard (shows : mode ≠ .silent) (heard : listeners.observer = some observer) :
    report listeners mode =
      (do
        let observation ← look
        observer observation
        return some observation) := by
  unfold report
  rw [heard]
  cases mode with
  | silent => exact absurd rfl shows
  | verbose => rfl
  | step => rfl

theorem report_of_observed (shows : mode ≠ .silent) (heard : listeners.observer = some observer)
    (observed : state.1.observe = some observation) :
    report listeners mode state =
      (do
        observer observation
        return some observation : Action World (Option Observation)) state := by
  rw [report_of_heard shows heard, bind_apply, look_apply, observed]

theorem heard_or_unheard (listeners : Listeners World) (mode : DebugMode) :
    (mode = .silent ∨ listeners.observer = none) ∨
      mode ≠ .silent ∧ ∃ observer, listeners.observer = some observer := by
  by_cases silent : mode = .silent
  · exact .inl (.inl silent)
  · rcases heard : listeners.observer with _ | observer
    · exact .inl (.inr rfl)
    · exact .inr ⟨silent, observer, rfl⟩

theorem report_eq_error (raised : report listeners mode state = (.error fault, after)) :
    (∃ observer observation, mode ≠ .silent ∧ listeners.observer = some observer ∧
        state.1.observe = some observation ∧ observer observation state = (.error fault, after)) ∨
      state.1.observe = none ∧ fault = .outOfRange := by
  rcases heard_or_unheard listeners mode with unheard | ⟨shows, observer, heard⟩
  · rw [report_of_unheard unheard] at raised
    cases raised
  · rcases observed : state.1.observe with _ | observation
    · rw [report_of_heard shows heard, bind_apply, look_apply, observed] at raised
      cases raised
      exact .inr ⟨rfl, rfl⟩
    · rw [report_of_observed shows heard observed] at raised
      rcases bind_eq_error raised with raised | ⟨_, _, -, returned⟩
      · exact .inl ⟨observer, observation, shows, heard, rfl, raised⟩
      · cases returned

theorem report_eq_ok (reported : report listeners mode state = (.ok seen, after)) :
    (mode = .silent ∨ listeners.observer = none) ∧ seen = none ∧ after = state ∨
      ∃ observer observation, mode ≠ .silent ∧ listeners.observer = some observer ∧
        state.1.observe = some observation ∧ observer observation state = (.ok (), after) ∧
        seen = some observation := by
  rcases heard_or_unheard listeners mode with unheard | ⟨shows, observer, heard⟩
  · rw [report_of_unheard unheard] at reported
    cases reported
    exact .inl ⟨unheard, rfl, rfl⟩
  · rcases observed : state.1.observe with _ | observation
    · rw [report_of_heard shows heard, bind_apply, look_apply, observed] at reported
      cases reported
    · rw [report_of_observed shows heard observed] at reported
      obtain ⟨_, _, called, returned⟩ := bind_eq_ok reported
      cases returned
      exact .inr ⟨observer, observation, shows, heard, rfl, called, rfl⟩

theorem getDM_look_apply (seen : Option Observation) (state : Session × World) :
    seen.getDM look state =
      match seen <|> state.1.observe with
      | some observation => (.ok observation, state)
      | none => (.error .outOfRange, state) := by
  cases seen with
  | none => exact look_apply state
  | some observation => rfl

theorem consult_of_unasked (unasked : blocking = false ∨ listeners.acknowledge = none) :
    consult listeners blocking index status seen = return .pausedForStep index := by
  rcases unasked with rfl | unasked
  · rfl
  · unfold consult
    rw [unasked]
    cases blocking <;> rfl

theorem consult_of_asked (asked : listeners.acknowledge = some acknowledge)
    (observed : (seen <|> state.1.observe) = some observation) :
    consult listeners true index status seen state =
      (do
        if ← acknowledge observation then return status
        else return .pausedForStep index : Action World Status) state := by
  unfold consult
  rw [asked]
  change (seen.getDM look >>= _ : Action World Status) state = _
  rw [bind_apply, getDM_look_apply, observed]

theorem consult_eq_ok {answer : Status}
    (consulted : consult listeners blocking index status seen state = (.ok answer, after)) :
    (blocking = false ∨ listeners.acknowledge = none) ∧ answer = .pausedForStep index ∧
        after = state ∨
      ∃ acknowledge observation agreed, blocking = true ∧
        listeners.acknowledge = some acknowledge ∧
        (seen <|> state.1.observe) = some observation ∧
        acknowledge observation state = (.ok agreed, after) ∧
        answer = if agreed then status else .pausedForStep index := by
  cases blocking with
  | false =>
    cases consulted
    exact .inl ⟨.inl rfl, rfl, rfl⟩
  | true =>
    rcases asked : listeners.acknowledge with _ | acknowledge
    · rw [consult_of_unasked (.inr asked)] at consulted
      cases consulted
      exact .inl ⟨.inr rfl, rfl, rfl⟩
    · rcases observed : (seen <|> state.1.observe) with _ | observation
      · unfold consult at consulted
        rw [asked] at consulted
        change (seen.getDM look >>= _ : Action World Status) state = _ at consulted
        rw [bind_apply, getDM_look_apply, observed] at consulted
        cases consulted
      · rw [consult_of_asked asked observed] at consulted
        obtain ⟨agreed, middle, called, returned⟩ := bind_eq_ok consulted
        refine .inr ⟨acknowledge, observation, agreed, rfl, rfl, rfl, ?_⟩
        cases agreed <;> cases returned <;> exact ⟨called, rfl⟩

theorem consult_eq_error
    (raised : consult listeners blocking index status seen state = (.error fault, after)) :
    (∃ acknowledge observation, blocking = true ∧ listeners.acknowledge = some acknowledge ∧
        (seen <|> state.1.observe) = some observation ∧
        acknowledge observation state = (.error fault, after)) ∨
      state.1.observe = none ∧ fault = .outOfRange := by
  cases blocking with
  | false => cases raised
  | true =>
    rcases asked : listeners.acknowledge with _ | acknowledge
    · rw [consult_of_unasked (.inr asked)] at raised
      cases raised
    · rcases observed : (seen <|> state.1.observe) with _ | observation
      · unfold consult at raised
        rw [asked] at raised
        change (seen.getDM look >>= _ : Action World Status) state = _ at raised
        rw [bind_apply, getDM_look_apply, observed] at raised
        cases raised
        cases seen with
        | none => exact .inr ⟨observed, rfl⟩
        | some observation => cases observed
      · rw [consult_of_asked asked observed] at raised
        rcases bind_eq_error raised with unanswered | ⟨agreed, middle, -, returned⟩
        · exact .inl ⟨acknowledge, observation, rfl, rfl, rfl, unanswered⟩
        · cases agreed <;> cases returned

theorem settle_apply (listeners : Listeners World) (blocking : Bool) (index : Int)
    (status : Status) (mode : DebugMode) (seen : Option Observation) (state : Session × World) :
    settle listeners blocking index status mode seen state =
      (match state.1.breaks with
      | .error fault => throw fault
      | .ok true => return .pausedAtBreakpoint index
      | .ok false =>
        if status = .halted then return .halted
        else if mode = .step then consult listeners blocking index status seen
        else return status : Action World Status) state := rfl

/-- The state after an instruction that left the engine with a status is settled by asking whether
to go on. -/
structure Asks (session : Session) (status : Status) (mode : DebugMode) : Prop where
  unbroken : session.breaks = .ok false
  unhalted : status ≠ .halted
  mode : mode = .step

theorem settle_of_asks (asks : state.1.Asks status mode) :
    settle listeners blocking index status mode seen state =
      consult listeners blocking index status seen state := by
  rw [settle_apply, asks.unbroken]
  exact congrFun ((if_neg asks.unhalted).trans (if_pos asks.mode)) state

theorem breaks_eq_error {session : Session} (raised : session.breaks = .error fault) :
    session.observe = none ∧ fault = .outOfRange := by
  unfold breaks at raised
  cases enabled : session.options.breakpoints with
  | false =>
    rw [enabled] at raised
    cases raised
  | true =>
    rw [enabled, if_pos rfl] at raised
    rcases last : session.engine.lastIndex with _ | index
    · simp [last] at raised
    · rcases found : session.engine.program.at? index with _ | instruction
      · simp only [last, found, Except.error.injEq] at raised
        exact ⟨by simp [observe, last, found], raised.symm⟩
      · simp [last, found] at raised

theorem settle_eq_error
    (raised : settle listeners blocking index status mode seen state = (.error fault, after)) :
    state.1.Asks status mode ∧
        consult listeners blocking index status seen state = (.error fault, after) ∨
      state.1.observe = none ∧ fault = .outOfRange := by
  rw [settle_apply] at raised
  rcases broken : state.1.breaks with reason | broken'
  · rw [broken] at raised
    cases raised
    exact .inr (breaks_eq_error broken)
  · rw [broken] at raised
    cases broken' with
    | true => cases raised
    | false =>
      by_cases halted : status = .halted
      · simp only [if_pos halted] at raised
        cases raised
      · by_cases asks : mode = .step
        · simp only [if_neg halted, if_pos asks] at raised
          exact .inl ⟨⟨broken, halted, asks⟩, raised⟩
        · simp only [if_neg halted, if_neg asks] at raised
          cases raised

end showing

/-- The session stands behind the instruction at an index. -/
structure Behind (session : Session) (index : Int) : Prop where
  last : session.engine.lastIndex = some index
  inside : ∃ instruction, session.engine.program.at? index = some instruction

namespace Behind

variable {session : Session}

theorem of_engine_eq {other : Session} (behind : session.Behind index)
    (same : other.engine = session.engine) : other.Behind index :=
  ⟨by rw [same, behind.last], by rw [same]; exact behind.inside⟩

theorem exists_observe (behind : session.Behind index) :
    ∃ observation, session.observe = some observation := by
  obtain ⟨instruction, found⟩ := behind.inside
  simp [observe, behind.last, found]

theorem breaks_eq (behind : session.Behind index) :
    session.breaks = .ok (decide (session.options.breakpoints = true ∧
      session.engine.program.at? index = some .breakpoint)) := by
  obtain ⟨instruction, found⟩ := behind.inside
  simp only [breaks, behind.last, found, Option.some.injEq]
  cases session.options.breakpoints <;> simp

theorem settle_eq {state : Session × World} (behind : state.1.Behind index) :
    settle listeners blocking index status mode seen state =
      (if state.1.options.breakpoints = true ∧
          state.1.engine.program.at? index = some .breakpoint then
        return .pausedAtBreakpoint index
      else if status = .halted then return .halted
      else if mode = .step then consult listeners blocking index status seen
      else return status : Action World Status) state := by
  rw [settle_apply, behind.breaks_eq]
  by_cases broken : state.1.options.breakpoints = true ∧
    state.1.engine.program.at? index = some .breakpoint
  · rw [if_pos broken, decide_eq_true broken]
  · rw [if_neg broken, decide_eq_false broken]

end Behind

/-- A callback raises a fault while the instruction is executed before which a session stands. The
engine is the one that the callback finds. -/
inductive Raised (listeners : Listeners World) (blocking : Bool) (point : Session × World)
    (fault : Fault) : Engine → Session × World → Prop where
  | output {value : UInt8} {next : Engine → Engine} {left : Session × World}
      (reaction : point.1.engine.react = .ok (.write value next))
      (raised : listeners.output value point = (.error fault, left)) :
      Raised listeners blocking point fault point.1.engine left
  | input {next : Engine → Option Int → Except Fault Engine} {left : Session × World}
      (reaction : point.1.engine.react = .ok (.read next))
      (raised : listeners.input point = (.error fault, left)) :
      Raised listeners blocking point fault point.1.engine left
  | observer {status : Status} {middle left : Session × World}
      {observer : Observation → Action World Unit} {observation : Observation}
      (executed : execute listeners point = (.ok status, middle))
      (unfailed : ∀ underflow, status ≠ .failed underflow)
      (shows : middle.1.options.mode ≠ .silent)
      (heard : listeners.observer = some observer)
      (observed : middle.1.observe = some observation)
      (raised : observer observation middle = (.error fault, left)) :
      Raised listeners blocking point fault middle.1.engine left
  | acknowledge {status : Status} {seen : Option Observation} {middle shown left : Session × World}
      {acknowledge : Observation → Action World Bool} {observation : Observation}
      (executed : execute listeners point = (.ok status, middle))
      (unfailed : ∀ underflow, status ≠ .failed underflow)
      (reported : report listeners middle.1.options.mode middle = (.ok seen, shown))
      (asks : shown.1.Asks status middle.1.options.mode)
      (waits : blocking = true)
      (asked : listeners.acknowledge = some acknowledge)
      (observed : (seen <|> shown.1.observe) = some observation)
      (raised : acknowledge observation shown = (.error fault, left)) :
      Raised listeners blocking point fault shown.1.engine left

/-- Nobody raises a fault, but the engine itself has no answer: it finds no instruction that it can
execute, it cannot store a value that was read, or a callback has put the instruction that it has
executed out of the program. -/
inductive Faults (listeners : Listeners World) (point : Session × World) : Fault → Prop where
  | execute {fault : Fault} (reaction : point.1.engine.react = .error fault) :
      Faults listeners point fault
  | store {fault : Fault} {next : Engine → Option Int → Except Fault Engine} {value : Option Int}
      {left : Session × World} (reaction : point.1.engine.react = .ok (.read next))
      (called : listeners.input point = (.ok value, left))
      (refused : next left.1.engine value = .error fault) : Faults listeners point fault
  | unseen {status : Status} {middle : Session × World}
      (executed : Session.execute listeners point = (.ok status, middle))
      (lost : middle.1.observe = none) : Faults listeners point .outOfRange
  | lost {status : Status} {mode : DebugMode} {seen : Option Observation}
      {middle shown : Session × World}
      (executed : Session.execute listeners point = (.ok status, middle))
      (reported : report listeners mode middle = (.ok seen, shown))
      (lost : shown.1.observe = none) : Faults listeners point .outOfRange

/-- What ends the execution of an instruction: the output, the input, or the engine itself. -/
theorem execute_eq_error (running : point.1.engine.finished = false)
    (raised : execute listeners point = (.error fault, after)) :
    (∃ engine, Raised listeners blocking point fault engine after) ∨
      Faults listeners point fault := by
  cases reaction : point.1.engine.react with
  | error reason =>
    rw [execute_of_error running reaction] at raised
    cases raised
    exact .inr (.execute reaction)
  | ok reacted =>
    cases reacted with
    | silent next =>
      rw [execute_of_silent running reaction] at raised
      cases raised
    | write value next =>
      rw [execute_of_write running reaction] at raised
      rcases bind_eq_error raised with unwritten | ⟨_, _, -, returned⟩
      · exact .inl ⟨_, .output reaction unwritten⟩
      · cases returned
    | read next =>
      rw [execute_of_read running reaction] at raised
      rcases bind_eq_error raised with unread | ⟨value, left, called, received⟩
      · exact .inl ⟨_, .input reaction unread⟩
      · change (match next left.1.engine value with
          | .error fault => throw fault
          | .ok engine => install engine : Action World Status) left = _ at received
        cases refused : next left.1.engine value with
        | error reason =>
          rw [refused] at received
          cases received
          exact .inr (.store reaction called refused)
        | ok reached =>
          rw [refused] at received
          cases received

theorem Raised.advance (raised : Raised listeners blocking point fault engine after)
    (running : point.1.engine.finished = false) :
    Session.advance listeners blocking point = (.error fault, after) := by
  cases raised with
  | output reaction raised =>
    rw [advance_of_running running, bind_apply, execute_of_write running reaction, bind_apply,
      raised]
  | input reaction raised =>
    rw [advance_of_running running, bind_apply, execute_of_read running reaction, bind_apply,
      raised]
  | observer executed unfailed shows heard observed raised =>
    rw [advance_of_executed running executed, attend_of_unfailed unfailed, bind_apply,
      report_of_observed shows heard observed, bind_apply, raised]
  | acknowledge executed unfailed reported asks waits asked observed raised =>
    rw [advance_of_executed running executed, attend_of_unfailed unfailed, bind_apply, reported]
    change settle listeners blocking point.1.engine.ip _ _ _ _ = _
    rw [settle_of_asks asks, waits, consult_of_asked asked observed, bind_apply, raised]

/-- Only a callback raises a fault, or the engine itself. -/
theorem raised_of_advance (running : point.1.engine.finished = false)
    (raised : advance listeners blocking point = (.error fault, after)) :
    (∃ engine, Raised listeners blocking point fault engine after) ∨
      Faults listeners point fault := by
  rw [advance_of_running running] at raised
  rcases bind_eq_error raised with stuck | ⟨status, middle, executed, raised⟩
  · exact execute_eq_error running stuck
  · rcases failed_or_unfailed status with ⟨underflow, rfl⟩ | unfailed
    · cases raised
    · rw [attend_of_unfailed unfailed] at raised
      rcases bind_eq_error raised with unshown | ⟨seen, shown, reported, unsettled⟩
      · rcases report_eq_error unshown with
          ⟨observer, observation, shows, heard, observed, raised⟩ | ⟨lost, rfl⟩
        · exact .inl ⟨_, .observer executed unfailed shows heard observed raised⟩
        · exact .inr (.unseen executed lost)
      · rcases settle_eq_error unsettled with ⟨asks, unanswered⟩ | ⟨lost, rfl⟩
        · rcases consult_eq_error unanswered with
            ⟨acknowledge, observation, waits, asked, observed, raised⟩ | ⟨lost, rfl⟩
          · exact .inl ⟨_, .acknowledge executed unfailed reported asks waits asked observed
              raised⟩
          · exact .inr (.lost executed reported lost)
        · exact .inr (.lost executed reported lost)

end Brainfuck.Session
