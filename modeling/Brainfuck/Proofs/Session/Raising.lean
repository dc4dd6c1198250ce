import Brainfuck.Proofs.Session.Sound

namespace Brainfuck.Session

variable {World : Type}

/-- A call on an idle session raises exactly what a callback raises in it. What was executed before
stays executed: the engine is left as it was before the instruction that writes or reads, or as it
is behind the instruction that is shown or asked about. Nothing else of the session has changed,
but that it may have been asked to stop; so the next call goes on from there. -/
theorem raise_consistent {listeners : Listeners World} (discreet : listeners.Discreet)
    {tokens : List Token} {source : String} {program : Program}
    (built : Program.ofTokens tokens source = .ok program) (options : Options) (size : Int)
    {world : World} {before : Session × World}
    (reached : Reached listeners (start program options (Tape.blank size), world) before)
    (entry : Entry) (fault : Fault) (after : Session × World) :
    before.1.active = false ∧
    (entry.perform listeners before = (.error fault, after) ↔
      ∃ count point engine left, entry.Stands listeners before count point ∧
        Raised listeners entry.waits point fault engine left ∧
        after = ({ before.1 with engine, interrupted := left.1.interrupted }, left.2)) ∧
    (∀ count point, entry.Stands listeners before count point →
      (∃ engine interrupted, point.1 = { before.1 with active := true, engine, interrupted }) ∧
        point.1.engine.steps = before.1.engine.steps + count) ∧
    (entry.perform listeners before = (.error fault, after) → ∀ next : Entry,
      next.perform listeners after = closed (next.body listeners (enter after))) := by
  have idle : before.1.active = false := reached.idle rfl
  obtain ⟨block, started⟩ := start_placed built options size
  have placed : before.1.engine.Placed block := reached.placed discreet rfl started
  have further {count : Nat} {point : Session × World}
      (stands : entry.Stands listeners before count point) :
      Further block count (enter before) point := stands.further discreet placed
  have closing {count : Nat} {point left : Session × World} {engine : Engine}
      (stands : entry.Stands listeners before count point)
      (raised : Raised listeners entry.waits point fault engine left) :
      leave left none =
        ({ before.1 with engine, interrupted := left.1.interrupted }, left.2) := by
    obtain ⟨_, _, stood⟩ := (further stands).left
    obtain ⟨interrupted, same⟩ := raised.left_eq discreet (by rw [stood]; rfl)
    rw [leave, same, stood]
    simp [enter, idle]
  refine ⟨idle, ⟨fun failed => ?_, ?_⟩, fun count point stands => ?_, fun failed next => ?_⟩
  · obtain ⟨count, point, left, stands, stuck, rfl⟩ := (entry.perform_eq_error_iff idle).mp failed
    rcases raised_of_advance stands.running stuck with ⟨engine, raised⟩ | faults
    · exact ⟨count, point, engine, left, stands, raised, closing stands raised⟩
    · have active := (further stands).active_eq
      exact absurd faults (not_faults discreet active stands.running (further stands).placed)
  · rintro ⟨count, point, engine, left, stands, raised, rfl⟩
    exact (entry.perform_eq_error_iff idle).mpr
      ⟨count, point, left, stands, raised.advance stands.running, (closing stands raised).symm⟩
  · exact ⟨(further stands).left, ((further stands).steps stands.running).2⟩
  · have left : (entry.perform listeners before).2.1.active = false := entry.idle_perform idle
    rw [failed] at left
    exact next.perform_of_idle left

/-- The output takes zeros only, and counts them. -/
def Listeners.picky : Listeners Nat where
  output value := fun (session, zeros) =>
    if value = 0 then (.ok (), session, zeros + 1) else (.error (.raised "closed"), session, zeros)
  input := return none

theorem Listeners.picky_discreet : picky.Discreet where
  output value := by
    intro state active
    refine ⟨state.1.interrupted, ?_⟩
    change (if value = 0 then (_, state.1, _) else (_, state.1, _) :
      Except Fault Unit × Session × Nat).2.1 = _
    split <;> rfl
  input state _ := ⟨state.1.interrupted, rfl⟩
  observer := by rintro _ ⟨⟩
  acknowledge := by rintro _ ⟨⟩

/-- The third instruction of `.+.` raises, and raises again when the session goes on. -/
theorem raise_consistent_picky :
    let program : Program := ⟨#[.output, .adjust 1, .output], #[0, 1, 2], ".+."⟩
    let fresh : Session × Nat := (start program {} (Tape.blank 1), 0)
    ∃ before after,
      Program.ofTokens [.ofSymbol .output 0, .ofSymbol .increment 1, .ofSymbol .output 2] ".+." =
        .ok program ∧
      (Entry.resume 9).perform .picky fresh = (.error (.raised "closed"), before) ∧
      before.1.engine.steps = 2 ∧ Reached .picky fresh before ∧
      Entry.stepOnce.perform .picky before = (.error (.raised "closed"), after) ∧
      (∃ count point engine left, Entry.stepOnce.Stands .picky before count point ∧
        Raised .picky false point (.raised "closed") engine left ∧
        after = ({ before.1 with engine, interrupted := left.1.interrupted }, left.2)) ∧
      (Entry.resume 9).perform .picky after =
        closed ((Entry.resume 9).body .picky (enter after)) := by
  intro program fresh
  have built : Program.ofTokens
      [.ofSymbol .output 0, .ofSymbol .increment 1, .ofSymbol .output 2] ".+." = .ok program := rfl
  let before := ((Entry.resume 9).perform .picky fresh).2
  let after := (Entry.stepOnce.perform .picky before).2
  have raised : (Entry.resume 9).perform .picky fresh = (.error (.raised "closed"), before) := rfl
  have again : Entry.stepOnce.perform .picky before = (.error (.raised "closed"), after) := rfl
  have reached : Reached .picky fresh before := .raised .fresh raised
  obtain ⟨-, consistent, -, next⟩ := raise_consistent Listeners.picky_discreet built {} 1 reached
    .stepOnce (.raised "closed") after
  exact ⟨before, after, built, raised, rfl, reached, again, consistent.mp again,
    next again (.resume 9)⟩

end Brainfuck.Session
