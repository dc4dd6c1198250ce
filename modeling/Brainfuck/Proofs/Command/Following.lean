import Brainfuck.Command.Execution
import Brainfuck.Proofs.Session.Following

namespace Brainfuck

namespace Command

open Session (Yields)

namespace Console

/-- What was typed, or is going to be read as typed, can be read, and no line of it asks to
stop. -/
def Willing (console : Console) : Prop :=
  ∃ lines, console.typing = .ok ⟨lines, false⟩ ∧ ∀ line ∈ lines, isQuit line = false

/-- The program reads what the streams hold and has written what they hold, and nobody stops
it. -/
structure Follows (console : Console) (streams : Streams) : Prop where
  feed : ∃ fed, console.feed = some fed ∧ fed.input = streams.input
  output : console.output = textOfOutput streams.output
  willing : console.Willing

variable {console : Console} {streams : Streams}

theorem read_of_feed {fed : Streams} (held : console.feed = some fed)
    (same : fed.input = streams.input) :
    ∃ left, console.read = (streams.read.1, { console with feed := some left }) ∧
      left.input = streams.read.2.input ∧ streams.read.2.output = streams.output := by
  have taken : console.read = (fed.read.1, { console with feed := some fed.read.2 }) := by
    rw [Console.read, held]
  have agree : fed.read.1 = streams.read.1 ∧ fed.read.2.input = streams.read.2.input ∧
      streams.read.2.output = streams.output := by
    rw [Streams.read, Streams.read, same]
    cases found : streams.input <;> simp [found, same]
  rw [agree.1] at taken
  exact ⟨_, taken, agree.2⟩

theorem output_putChar (written : console.output = textOfOutput streams.output) (value : UInt8) :
    (console.putChar (Char.ofNat value.toNat)).output =
      textOfOutput (streams.write value).output := by
  rw [Console.putChar, written]
  apply String.toList_inj.mp
  simp [textOfOutput, Streams.write]

namespace Follows

theorem print (follows : console.Follows streams) (text : String) :
    (console.print text).Follows streams :=
  ⟨follows.feed, follows.output, follows.willing⟩

theorem log (follows : console.Follows streams) (level : Level) (message : String) :
    (console.log level message).Follows streams := by
  unfold Console.log
  split
  · exact follows.print _
  · exact follows

theorem note (follows : console.Follows streams) (session : Session) (status : Status) :
    (note console session status).Follows streams := by
  cases status with
  | pausedAtBreakpoint _ | halted | failed _ => exact follows.log _ _
  | running | pausedForStep _ => exact follows

theorem putChar (follows : console.Follows streams) (value : UInt8) :
    (console.putChar (Char.ofNat value.toNat)).Follows (streams.write value) :=
  ⟨follows.feed, output_putChar follows.output value, follows.willing⟩

theorem read (follows : console.Follows streams) :
    ∃ after, console.read = (streams.read.1, after) ∧ after.Follows streams.read.2 := by
  obtain ⟨fed, held, same⟩ := follows.feed
  obtain ⟨left, taken, fed', written⟩ := read_of_feed held same
  exact ⟨_, taken, ⟨left, rfl, fed'⟩, written ▸ follows.output, follows.willing⟩

theorem ask (follows : console.Follows streams) (prompt : String) :
    ∃ after, console.ask prompt = (.ok true, after) ∧ after.Follows streams := by
  obtain ⟨lines, typing, willing⟩ := follows.willing
  have shown : (console.print prompt).typing = .ok ⟨lines, false⟩ := typing
  cases lines with
  | nil =>
    have asked : console.ask prompt =
        (.ok true, { console.print prompt with bytes := [], typed := some ⟨[], false⟩ }) := by
      simp only [Console.ask, shown]
      rfl
    exact ⟨_, asked, follows.feed, follows.output, [], rfl, willing⟩
  | cons line rest =>
    obtain ⟨goesOn, later⟩ := List.forall_mem_cons.mp willing
    have asked : console.ask prompt =
        (.ok true, { console.print prompt with bytes := [], typed := some ⟨rest, false⟩ }) := by
      simp only [Console.ask, shown, goesOn]
      rfl
    exact ⟨_, asked, follows.feed, follows.output, rest, rfl, later⟩

end Follows
end Console

/-- The session has come as far as the machine, with nobody about to stop it. -/
structure Follows (machine : Machine) (state : Session × Console) : Prop where
  engine : state.1.engine = machine.engine
  eager : state.1.interrupted = false
  console : state.2.Follows machine.streams

variable {machine final : Machine} {state : Session × Console} {block : Block}
  {observation : Observation}

namespace Follows

theorem enter (follows : Follows machine state) :
    Session.Follows Console.Follows state.1.options machine (Session.enter state) :=
  ⟨rfl, rfl, follows.eager, follows.engine, follows.console⟩

theorem of_session {options : Session.Options}
    (follows : Session.Follows Console.Follows options machine state) : Follows machine state :=
  ⟨follows.engine, follows.eager, follows.streams⟩

theorem onConsole {change : Console → Console} (follows : Follows machine state)
    (kept : ∀ console : Console, console.Follows machine.streams →
      (change console).Follows machine.streams) :
    Yields (Action.onConsole change) state fun _ after =>
      Follows machine after ∧ after.1 = state.1 :=
  ⟨(), (state.1, change state.2), rfl,
    ⟨follows.engine, follows.eager, kept state.2 follows.console⟩, rfl⟩

theorem ask (follows : Follows machine state) (prompt : String) :
    Yields (Action.ask prompt) state fun agreed after =>
      agreed = true ∧ Follows machine after ∧ after.1 = state.1 := by
  obtain ⟨console, asked, follows'⟩ := follows.console.ask prompt
  refine ⟨true, (state.1, console), ?_, rfl, ⟨follows.engine, follows.eager, follows'⟩, rfl⟩
  simp only [Action.ask, asked]

theorem display (follows : Follows machine state) {text : String}
    (shown : observation.text = .ok text) :
    Yields (Action.display observation) state fun _ after =>
      Follows machine after ∧ after.1 = state.1 := by
  have displayed : Action.display observation = Action.onConsole (·.print s!"\n{text}\n") := by
    rw [Action.display, shown]
    rfl
  rw [displayed]
  exact follows.onConsole fun console follows => follows.print _

theorem exists_text (follows : Follows machine state)
    (placed : machine.Placed (block.instructions 0))
    (observed : state.1.observe = some observation) : ∃ text, observation.text = .ok text :=
  (Session.legible_of_observe placed follows.engine observed).exists_text

end Follows

theorem listeners_obliging (mode : DebugMode) : listeners.Obliging mode Console.Follows where
  output value state streams _ follows :=
    ⟨(), (state.1, state.2.putChar (Char.ofNat value.toNat)), rfl, trivial, rfl,
      follows.putChar value⟩
  input state streams _ follows := by
    obtain ⟨console, read, follows'⟩ := follows.read
    refine ⟨streams.read.1, (state.1, console), ?_, rfl, rfl, follows'⟩
    change (Except.ok state.2.read.1, state.1, state.2.read.2) = _
    rw [read]
  observer := by
    rintro observer ⟨⟩ observation legible state streams - follows
    obtain ⟨text, shown⟩ := legible.exists_text
    refine ⟨(), (state.1, state.2.print s!"\n{text}\n"), ?_, trivial, rfl, follows.print _⟩
    simp only [Action.display, shown]
    rfl
  acknowledge _ := by
    refine ⟨_, rfl, fun observation legible state streams _ follows => ?_⟩
    obtain ⟨console, asked, follows'⟩ :=
      follows.ask "[step] Enter to continue, q to stop: "
    refine ⟨true, (state.1, console), ?_, rfl, rfl, follows'⟩
    simp only [Action.ask, asked]

/-- The exit code that tells how a run ended. -/
def exitCode : Status → Option Nat
  | .halted => some 0
  | .failed _ => some 1
  | .running | .pausedAtBreakpoint _ | .pausedForStep _ => none

/-- How a run towards a final machine that is a number of steps away comes to rest: there, or
behind a breakpoint on the way. -/
inductive Rests (block : Block) (count : Nat) (final : Machine) :
    Option Status → Session × Console → Prop where
  | ended {state : Session × Console} (follows : Follows final state) :
      Rests block count final (some final.engine.status) state
  | paused {state : Session × Console} {middle : Machine} {fewer : Nat} {place : Int}
      (less : fewer < count) (rest : Machine.Steps fewer middle final)
      (placed : middle.Placed (block.instructions 0)) (follows : Follows middle state) :
      Rests block count final (some (.pausedAtBreakpoint place)) state

variable {count fuel rounds : Nat}

theorem Rests.mono {more : Nat} {status? : Option Status}
    (rests : Rests block count final status? state) (less : count ≤ more) :
    Rests block more final status? state := by
  cases rests with
  | ended follows => exact .ended follows
  | paused less' rest placed follows => exact .paused (by omega) rest placed follows

theorem Rests.map {status? : Option Status} {after : Session × Console}
    (rests : Rests block count final status? state)
    (moved : ∀ machine, Follows machine state → Follows machine after) :
    Rests block count final status? after := by
  cases rests with
  | ended follows => exact .ended (moved _ follows)
  | paused less rest placed follows => exact .paused less rest placed (moved _ follows)

namespace Follows

/-- A run that may take as many steps as it is far comes to rest. -/
theorem run {options : Session.Options}
    (follows : Session.Follows Console.Follows options machine state)
    (placed : machine.Placed (block.instructions 0))
    (steps : Machine.Steps count machine final) (finished : final.engine.finished = true)
    (enough : count ≤ fuel) :
    Yields (Session.run listeners fuel) state (Rests block count final) := by
  induction fuel generalizing machine state count with
  | zero =>
    have same : final = machine := by
      cases Nat.le_zero.mp enough
      cases steps
      rfl
    subst same
    refine ⟨_, state, follows.boundary, ?_⟩
    rw [if_pos finished]
    exact .ended (of_session follows)
  | succ fuel ih =>
    rw [Session.run, Yields, bind_apply, follows.boundary]
    cases ended : machine.engine.finished with
    | true =>
      cases steps.of_finished ended
      exact Yields.pure (.ended (of_session follows))
    | false =>
      obtain ⟨stepped, turn⟩ := placed.step
      obtain ⟨fewer, less, rest⟩ := steps.tail stepped ended finished
      refine (follows.advance (listeners_obliging _) placed ended).bind fun status after told => ?_
      obtain ⟨rfl, follows'⟩ := told
      rw [Machine.outcome]
      split
      · exact .pure (.paused less rest turn.placed (of_session follows'))
      · rw [if_neg (by simp [turn.placed.not_isPause])]
        exact (ih follows' turn.placed rest (by omega)).mono fun _ _ rests =>
          rests.mono (Nat.le_of_lt less)

theorem resume (follows : Follows machine state) (idle : state.1.active = false)
    (placed : machine.Placed (block.instructions 0)) (steps : Machine.Steps count machine final)
    (finished : final.engine.finished = true) (enough : count ≤ fuel) :
    Yields (Command.resume none fuel) state fun status? after =>
      after.1.active = false ∧ Rests block count final status? after := by
  refine Yields.exclusively idle ((run follows.enter placed steps finished enough).mono
    fun status? after rests => ⟨rfl, ?_⟩)
  exact rests.map fun _ follows => ⟨follows.engine, follows.eager, follows.console⟩

theorem burst (follows : Follows machine state) (idle : state.1.active = false)
    (placed : machine.Placed (block.instructions 0)) (steps : Machine.Steps count machine final)
    (finished : final.engine.finished = true) (enough : count ≤ fuel) :
    Yields (Command.burst none fuel) state fun status? after =>
      after.1.active = false ∧ Rests block count final status? after := by
  refine .current_bind ((follows.resume idle placed steps finished enough).bind
    fun status? after told => ?_)
  obtain ⟨idle', rests⟩ := told
  obtain ⟨status, rfl⟩ : ∃ status, status? = some status := by
    cases rests <;> exact ⟨_, rfl⟩
  dsimp only
  split
  · refine .current_bind ⟨some status, (after.1, note after.2 after.1 status), rfl, idle', ?_⟩
    exact rests.map fun _ follows => ⟨follows.engine, follows.eager, follows.console.note _ _⟩
  · exact .pure ⟨idle', rests⟩

/-- The command goes on behind each breakpoint until the program has ended. -/
theorem drive (follows : Follows machine state) (idle : state.1.active = false)
    (placed : machine.Placed (block.instructions 0)) (steps : Machine.Steps count machine final)
    (finished : final.engine.finished = true) (enough : count ≤ fuel) (turns : count < rounds) :
    Yields (Command.drive none fuel rounds) state fun code? after =>
      code? = exitCode final.engine.status ∧
        after.2.output = textOfOutput final.streams.output := by
  induction rounds generalizing machine state count with
  | zero => cases turns
  | succ rounds ih =>
    refine (follows.burst idle placed steps finished enough).bind fun status? after told => ?_
    obtain ⟨idle', rests⟩ := told
    cases rests with
    | ended follows' =>
      dsimp only
      cases status : final.engine.status with
      | halted => exact .pure ⟨rfl, follows'.console.output⟩
      | failed underflow =>
        exact (follows'.onConsole fun _ kept => kept.print _).bind fun _ _ told =>
          .pure ⟨rfl, told.1.console.output⟩
      | _ => simp [Engine.finished, status, Status.isFinal] at finished
    | @paused _ middle fewer place less rest placed' follows' =>
      have proceed {state : Session × Console} (follows : Follows middle state)
          (idle : state.1.active = false) (prompt : String) :
          Yields (do if ← Action.ask prompt then Command.drive none fuel rounds else return some 0)
            state fun code? after => code? = exitCode final.engine.status ∧
              after.2.output = textOfOutput final.streams.output := by
        refine (follows.ask prompt).bind fun agreed after told => ?_
        obtain ⟨rfl, follows, same⟩ := told
        exact ih follows (same ▸ idle) placed' rest (by omega) (by omega)
      refine .current_bind ?_
      split
      · next observation observed =>
        obtain ⟨text, shown⟩ := follows'.exists_text placed' observed
        exact (follows'.display shown).bind fun _ after told =>
          proceed told.1 (told.2 ▸ idle') _
      · exact proceed follows' idle' _

end Follows

end Command
end Brainfuck
