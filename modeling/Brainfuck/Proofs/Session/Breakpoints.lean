import Brainfuck.Proofs.Session.Following
import Brainfuck.Proofs.Transparency

namespace Brainfuck

namespace Machine

variable {start machine : Machine} {first last count bound visit : Nat}

/-- How many breakpoints a number of calls of `step` execute. -/
def visitsBefore (start : Machine) (count : Nat) : Nat :=
  (List.range count).countP fun earlier => (start.afterCalls earlier).visits

theorem visitsBefore_succ (start : Machine) (count : Nat) :
    start.visitsBefore (count + 1) =
      start.visitsBefore count + if (start.afterCalls count).visits then 1 else 0 := by
  rw [visitsBefore, List.range_succ, List.countP_append, List.countP_singleton]
  rfl

theorem visitsBefore_mono (start : Machine) (less : first ≤ last) :
    start.visitsBefore first ≤ start.visitsBefore last :=
  (List.range_sublist.mpr less).countP_le

theorem exists_visit (exceeded : visit < start.visitsBefore bound) :
    ∃ count < bound, (start.afterCalls count).visits = true ∧ start.visitsBefore count = visit := by
  induction bound with
  | zero => cases exceeded
  | succ bound ih =>
    rw [visitsBefore_succ] at exceeded
    by_cases before : visit < start.visitsBefore bound
    · obtain ⟨count, less, visited, same⟩ := ih before
      exact ⟨count, by omega, visited, same⟩
    · split at exceeded
      · next visited => exact ⟨bound, Nat.lt_succ_self bound, visited, by omega⟩
      · omega

theorem visits_eq_false (same : start.visitsBefore last = start.visitsBefore first)
    (above : first ≤ count) (below : count < last) : (start.afterCalls count).visits = false := by
  have before := start.visitsBefore_mono above
  have behind := start.visitsBefore_mono (Nat.succ_le_of_lt below)
  rw [Nat.succ_eq_add_one, visitsBefore_succ] at behind
  cases visited : (start.afterCalls count).visits with
  | false => rfl
  | true =>
    rw [visited, if_pos rfl] at behind
    omega

theorem outcome_of_finished (breakpoints : Bool) (finished : machine.engine.finished = true) :
    machine.outcome breakpoints = machine.engine.status := by
  have unvisited : machine.visits = false := by simp [visits, attempts, finished]
  rw [outcome, unvisited, Bool.and_false, stepped_of_finished finished]
  rfl

theorem outcome_of_visits (visited : machine.visits = true) :
    machine.outcome true = .pausedAtBreakpoint machine.engine.ip := by
  rw [outcome, visited]
  rfl

/-- A run stops behind the breakpoint that comes next, or because nothing comes next. -/
def Stops (machine : Machine) : Prop := machine.visits = true ∨ machine.engine.finished = true

end Machine

namespace Session

variable {World : Type} {listeners : Listeners World} {holds : World → Streams → Prop}
  {options : Options} {start : Machine} {fresh state : Session × World} {block : Block}
  {first last count visit extra fuel : Nat}

/-- A run goes on to the first place where it stops. -/
theorem Follows.run (follows : Follows holds options (start.afterCalls first) state)
    (begins : start.Begins (block.instructions 0))
    (obliging : listeners.Obliging options.mode holds) (pauses : options.breakpoints = true)
    (less : first ≤ last) (same : start.visitsBefore last = start.visitsBefore first)
    (stops : (start.afterCalls last).Stops) (enough : last - first < fuel) :
    Yields (Session.run listeners fuel) state fun status? after =>
      status? = some ((start.afterCalls last).outcome true) ∧
        Follows holds options (start.afterCalls (last + 1)) after := by
  induction fuel generalizing first state with
  | zero => omega
  | succ fuel ih =>
    rw [Session.run, Yields, bind_apply, follows.boundary]
    cases finished : (start.afterCalls first).engine.finished with
    | true =>
      have there := Machine.afterCalls_of_finished finished less
      refine Yields.pure ⟨?_, ?_⟩
      · rw [there, Machine.outcome_of_finished true finished]
      · rwa [Machine.afterCalls, there, Machine.stepped_of_finished finished]
    | false =>
      have placed := begins.placed_afterCalls first
      refine (follows.advance obliging placed finished).bind fun status after told => ?_
      obtain ⟨rfl, follows'⟩ := told
      rw [pauses]
      rcases Nat.eq_or_lt_of_le less with here | further
      · subst here
        have visited : (start.afterCalls first).visits = true := by
          rcases stops with visited | finished'
          · exact visited
          · rw [finished'] at finished
            cases finished
        rw [Machine.outcome_of_visits visited]
        exact .pure ⟨rfl, follows'⟩
      · have unvisited := Machine.visits_eq_false same (Nat.le_refl first) further
        have goesOn : ((start.afterCalls first).outcome true).isPause = false := by
          rw [Machine.outcome, unvisited, Bool.and_false]
          exact placed.step.2.placed.not_isPause
        have following : Follows holds options (start.afterCalls (first + 1)) after := follows'
        rw [goesOn]
        refine ih following further ?_ (by omega)
        rw [same, Machine.visitsBefore_succ, unvisited]
        rfl

theorem Call.AllReturn.concat {calls : List Call} {call : Call}
    {before middle after : Session × World} (first : AllReturn listeners calls before middle)
    (last : call.Returns listeners middle after) :
    AllReturn listeners (calls ++ [call]) before after := by
  induction first with
  | nil => exact .cons last (.nil _)
  | cons returns _ ih => exact .cons returns (ih last)

/-- After a number of calls of `resume`, there is no breakpoint between the session and the
instruction that a call of `step` executes. -/
def Awaits (listeners : Listeners World) (holds : World → Streams → Prop) (options : Options)
    (start : Machine) (fresh : Session × World) (resumed count : Nat) : Prop :=
  ∃ first state, Call.AllReturn listeners (List.replicate resumed (.resume none)) fresh state ∧
    state.1.active = false ∧ Follows holds options (start.afterCalls first) (enter state) ∧
    first ≤ count ∧ start.visitsBefore count = start.visitsBefore first

/-- After a number of calls of `resume` the next one returns a status, and leaves the session
with the engine and the streams of a machine. -/
structure Resumes (listeners : Listeners World) (holds : World → Streams → Prop)
    (fresh : Session × World) (resumed : Nat) (status : Status) (machine : Machine)
    (state after : Session × World) : Prop where
  earlier : Call.AllReturn listeners (List.replicate resumed (.resume none)) fresh state
  returns : ∃ enough, ∀ fuel, enough ≤ fuel →
    resume listeners fuel state = (.ok (some status), after)
  idle : after.1.active = false
  status : after.1.status = status
  engine : after.1.engine = machine.engine
  streams : holds after.2 machine.streams

theorem Resumes.allReturn {status : Status} {machine : Machine} {after : Session × World}
    (resumes : Resumes listeners holds fresh visit status machine state after) :
    Call.AllReturn listeners (List.replicate (visit + 1) (.resume none)) fresh after := by
  obtain ⟨enough, returns⟩ := resumes.returns
  rw [List.replicate_succ']
  exact resumes.earlier.concat ⟨enough, status, returns enough (Nat.le_refl enough)⟩

section resuming

variable (begins : start.Begins (block.instructions 0))
  (obliging : listeners.Obliging options.mode holds) (pauses : options.breakpoints = true)
include begins obliging pauses

theorem Awaits.resumes (awaits : Awaits listeners holds options start fresh visit count)
    (stops : (start.afterCalls count).Stops) :
    ∃ state after, Resumes listeners holds fresh visit ((start.afterCalls count).outcome true)
        (start.afterCalls (count + 1)) state after ∧
      Follows holds options (start.afterCalls (count + 1)) (enter after) := by
  obtain ⟨first, state, returned, idle, follows, less, same⟩ := awaits
  obtain ⟨status?, middle, ended, rfl, follows'⟩ :=
    follows.run begins obliging pauses less same stops (Nat.lt_succ_self (count - first))
  let status := (start.afterCalls count).outcome true
  have returns (fuel : Nat) (enough : count - first + 1 ≤ fuel) :
      resume listeners fuel state = (.ok (some status), leave middle (some status)) := by
    have accepted : resume listeners fuel state =
        closed (Session.run listeners fuel (enter state)) :=
      (Entry.resume fuel).perform_of_idle idle
    rw [accepted, run_of_le ended (by simp) enough]
    rfl
  exact ⟨state, _, ⟨returned, ⟨_, returns⟩, rfl, rfl, follows'.engine, follows'.streams⟩,
    rfl, follows'.options, follows'.eager, follows'.engine, follows'.streams⟩

/-- As many calls of `resume` as there are visits lead behind all of them. -/
theorem awaits_visitsBefore (follows : Follows holds options start (enter fresh))
    (idle : fresh.1.active = false) (same : start.visitsBefore count = visit) :
    Awaits listeners holds options start fresh visit count := by
  induction visit generalizing count with
  | zero => exact ⟨0, fresh, .nil fresh, idle, follows, Nat.zero_le count, same⟩
  | succ visit ih =>
    have exceeded : visit < start.visitsBefore count := by omega
    obtain ⟨stop, before, visited, same'⟩ := Machine.exists_visit exceeded
    obtain ⟨state, after, resumes, follows'⟩ :=
      (ih same').resumes begins obliging pauses (.inl visited)
    refine ⟨stop + 1, after, resumes.allReturn, resumes.idle, follows', before, ?_⟩
    rw [same, Machine.visitsBefore_succ, same', visited]
    rfl

/-- At the end each further call leaves the session there. -/
theorem Awaits.again (awaits : Awaits listeners holds options start fresh visit count)
    (finished : (start.afterCalls count).engine.finished = true) :
    Awaits listeners holds options start fresh (visit + 1) count := by
  obtain ⟨state, after, resumes, follows⟩ := awaits.resumes begins obliging pauses (.inr finished)
  refine ⟨count, after, resumes.allReturn, resumes.idle, ?_, Nat.le_refl count, rfl⟩
  rwa [Machine.afterCalls, Machine.stepped_of_finished finished] at follows

end resuming

/-- The calls of `resume` pause behind each breakpoint that the machine executes, one call behind
one execution, with the engine that the machine has there. Each further call leads to its end. -/
theorem breakpoints_pause_once {listeners : Listeners World} {holds : World → Streams → Prop}
    {options : Options} (obliging : listeners.Obliging options.mode holds)
    (pauses : options.breakpoints = true) {tokens : List Token} {source : String}
    {program : Program} (built : Program.ofTokens tokens source = .ok program) (size : Int)
    {input : List (Option Int)} {world : World} (fresh : holds world { input }) (resumed : Nat) :
    let session : Session × World := (Session.start program options (Tape.blank size), world)
    let start := Machine.load program input (Tape.blank size)
    (∀ count, (start.afterCalls count).visits = true → start.visitsBefore count = resumed →
      ∃ state after, Resumes listeners holds session resumed
          (.pausedAtBreakpoint (start.afterCalls count).engine.ip) (start.afterCalls (count + 1))
          state after ∧
        after.1.engine.ip = (start.afterCalls count).engine.ip + 1) ∧
    (∀ count, (start.afterCalls count).engine.finished = true →
      start.visitsBefore count ≤ resumed →
      ∃ state after, Resumes listeners holds session resumed
          (start.afterCalls count).engine.status (start.afterCalls count) state after) := by
  intro session start
  obtain ⟨block, -, rfl⟩ := Program.ofTokens_eq_ok_iff.mp built
  have begins : start.Begins (block.instructions 0) :=
    Machine.Begins.load (Program.ofBlock block tokens source) input size
  have follows : Follows holds options start (enter session) := ⟨rfl, rfl, rfl, rfl, fresh⟩
  constructor
  · intro count visited same
    obtain ⟨state, after, resumes, -⟩ :=
      (awaits_visitsBefore begins obliging pauses follows rfl same).resumes begins obliging pauses
        (.inl visited)
    rw [Machine.outcome_of_visits visited] at resumes
    refine ⟨state, after, resumes, ?_⟩
    rw [resumes.engine, Machine.afterCalls, Machine.stepped_of_visits visited]
    rfl
  · intro count finished within
    have awaits : Awaits listeners holds options start session resumed count := by
      induction within with
      | refl => exact awaits_visitsBefore begins obliging pauses follows rfl rfl
      | step _ ih => exact ih.again begins obliging pauses finished
    obtain ⟨state, after, resumes, -⟩ :=
      awaits.resumes begins obliging pauses (.inr finished)
    rw [Machine.outcome_of_finished true finished, Machine.afterCalls,
      Machine.stepped_of_finished finished] at resumes
    exact ⟨state, after, resumes⟩

/-- The program reads from and writes to memory. Each state is shown to nobody, and whoever is
asked agrees. -/
def Listeners.willing : Listeners Streams where
  output value := modify fun (session, streams) => (session, streams.write value)
  input := modifyGet fun (session, streams) => (streams.read.1, session, streams.read.2)
  observer := some fun _ => return
  acknowledge := some fun _ => return true

theorem Listeners.willing_obliging (mode : DebugMode) : willing.Obliging mode Eq where
  output value state streams _ same :=
    ⟨(), (state.1, state.2.write value), rfl, trivial, rfl, congrArg (·.write value) same⟩
  input state streams _ same :=
    ⟨state.2.read.1, (state.1, state.2.read.2), rfl, congrArg (·.read.1) same, rfl,
      congrArg (·.read.2) same⟩
  observer := by
    rintro observer ⟨⟩ observation - state streams - same
    exact .pure ⟨trivial, rfl, same⟩
  acknowledge _ := ⟨_, rfl, fun _ _ _ _ _ same => .pure ⟨rfl, rfl, same⟩⟩

/-- In step mode a session of `#++[-#]#` pauses at the breakpoint in front, twice at the one in the
loop, and once at the one at the end, where the engine has halted already. -/
theorem breakpoints_pause_once_loop :
    let program : Program :=
      ⟨#[.breakpoint, .adjust 1, .adjust 1, .jumpIfZero 6, .adjust (-1), .breakpoint,
        .jumpIfNonzero 3, .breakpoint], #[0, 1, 2, 3, 4, 5, 6, 7], "#++[-#]#"⟩
    let session : Session × Streams := (Session.start program { mode := .step } (Tape.blank 1), {})
    let start := Machine.load program [] (Tape.blank 1)
    Program.ofTokens [.ofSymbol .breakpoint 0, .ofSymbol .increment 1, .ofSymbol .increment 2,
        .ofSymbol .loopStart 3, .ofSymbol .decrement 4, .ofSymbol .breakpoint 5,
        .ofSymbol .loopEnd 6, .ofSymbol .breakpoint 7] "#++[-#]#" = .ok program ∧
      (start.afterCalls 8).visits = true ∧ start.visitsBefore 8 = 2 ∧
      (∃ state after, Resumes .willing Eq session 2 (.pausedAtBreakpoint 5) (start.afterCalls 9)
        state after ∧ after.1.engine.ip = 6) ∧
      (start.afterCalls 10).visits = true ∧ start.visitsBefore 10 = 3 ∧
      (∃ state after, Resumes .willing Eq session 3 (.pausedAtBreakpoint 7) (start.afterCalls 11)
        state after ∧ after.1.engine.ip = 8) ∧
      (start.afterCalls 11).engine.finished = true ∧ start.visitsBefore 11 = 4 ∧
      (∃ state after, Resumes .willing Eq session 5 .halted (start.afterCalls 11) state after) := by
  intro program session start
  have built : Program.ofTokens [.ofSymbol .breakpoint 0, .ofSymbol .increment 1,
      .ofSymbol .increment 2, .ofSymbol .loopStart 3, .ofSymbol .decrement 4,
      .ofSymbol .breakpoint 5, .ofSymbol .loopEnd 6, .ofSymbol .breakpoint 7] "#++[-#]#" =
    .ok program := rfl
  have looped : (start.afterCalls 8).visits = true := by decide +kernel
  have before : start.visitsBefore 8 = 2 := by decide +kernel
  have inside : (start.afterCalls 8).engine.ip = 5 := by decide +kernel
  have atEnd : (start.afterCalls 10).visits = true := by decide +kernel
  have before' : start.visitsBefore 10 = 3 := by decide +kernel
  have last : (start.afterCalls 10).engine.ip = 7 := by decide +kernel
  have finished : (start.afterCalls 11).engine.finished = true := by decide +kernel
  have all : start.visitsBefore 11 = 4 := by decide +kernel
  have halted : (start.afterCalls 11).engine.status = .halted := by decide +kernel
  have load : Machine.load program [] (Tape.blank 1) = start := rfl
  clear_value start
  have pauses (resumed : Nat) := @breakpoints_pause_once Streams .willing Eq { mode := .step }
    (Listeners.willing_obliging .step) rfl _ _ program built 1 [] {} rfl resumed
  rw [load] at pauses
  have third := (pauses 2).1 8 looped before
  have fourth := (pauses 3).1 10 atEnd before'
  have sixth := (pauses 5).2 11 finished (by rw [all]; decide)
  rw [inside] at third
  rw [last] at fourth
  rw [halted] at sixth
  exact ⟨built, looped, before, third, atEnd, before', fourth, finished, all, sixth⟩

end Session
end Brainfuck
