import Brainfuck.Proofs.Macro.Walk

namespace Brainfuck.Macro

/-- What is left of a body, and the name that it was entered by. The tokens that are
expanded stand in a frame without a name. -/
structure Frame where
  name : Option String
  rest : List Token

/-- The innermost frame and the innermost open name come first. -/
structure Loop where
  frames : List Frame
  active : List String := []
  output : Array Token := #[]

namespace Loop

def start (tokens : List Token) : Loop := { frames := [⟨none, tokens⟩] }

/-- Leave the innermost frame at its end, or read its next token. -/
def turn (table : Table) (loop : Loop) : Except Diagnostic Loop :=
  match loop.frames with
  | [] => .ok loop
  | ⟨name, []⟩ :: outer =>
    let active := if name.isSome then loop.active.tail else loop.active
    .ok { loop with frames := outer, active }
  | ⟨name, token :: rest⟩ :: outer =>
    let frames := ⟨name, rest⟩ :: outer
    if token.isCall then
      match table.enter loop.active token with
      | .error diagnostic => .error diagnostic
      | .ok callee =>
        .ok { loop with
          frames := ⟨some callee.name, callee.body⟩ :: frames
          active := callee.name :: loop.active }
    else .ok { loop with frames, output := loop.output.push token }

/-- Turn until no frame is left; nothing if that takes more turns than the fuel. -/
def run (table : Table) : Nat → Loop → Option (Except Diagnostic (List Token))
  | _, ⟨[], _, output⟩ => some (.ok output.toList)
  | 0, ⟨_ :: _, _, _⟩ => none
  | fuel + 1, loop =>
    match loop.turn table with
    | .error diagnostic => some (.error diagnostic)
    | .ok next => run table fuel next

variable {table : Table} {trail opened active : List String} {token last : Token}
  {callee : Definition} {tokens out rest : List Token} {flaw : Flaw} {name : Option String}
  {outer : List Frame} {output : Array Token}

theorem run_end (fuel : Nat) :
    run table (fuel + 1) ⟨⟨name, []⟩ :: outer, active, output⟩ =
      run table fuel ⟨outer, if name.isSome then active.tail else active, output⟩ := rfl

theorem run_plain (fuel : Nat) (kept : token.isCall = false) :
    run table (fuel + 1) ⟨⟨name, token :: rest⟩ :: outer, active, output⟩ =
      run table fuel ⟨⟨name, rest⟩ :: outer, active, output.push token⟩ := by
  simp [run, turn, kept]

theorem run_call (fuel : Nat) (called : token.isCall = true)
    (found : table.callee? token = some callee) (fresh : callee.name ∉ active) :
    run table (fuel + 1) ⟨⟨name, token :: rest⟩ :: outer, active, output⟩ =
      run table fuel ⟨⟨some callee.name, callee.body⟩ :: ⟨name, rest⟩ :: outer,
        callee.name :: active, output⟩ := by
  simp [run, turn, called, Table.enter_eq_ok_iff.mpr ⟨found, fresh⟩]

theorem run_offence (fuel : Nat) (called : token.isCall = true)
    (offence : table.Offence active token flaw) :
    run table (fuel + 1) ⟨⟨name, token :: rest⟩ :: outer, active, output⟩ =
      some (.error ⟨flaw, token.offset⟩) := by
  simp [run, turn, called, Table.enter_of_offence offence]

/-- A body that is entered is left again, if the walk passes it. -/
theorem run_of_passes (passes : table.Passes trail tokens out) :
    ∃ turns, ∀ fuel name rest outer output,
      run table (fuel + turns) ⟨⟨name, tokens ++ rest⟩ :: outer, trail, output⟩ =
        run table fuel ⟨⟨name, rest⟩ :: outer, trail, output ++ out⟩ := by
  induction passes with
  | nil => exact ⟨0, fun fuel name rest outer output => by simp⟩
  | plain kept _ ih =>
    obtain ⟨turns, ran⟩ := ih
    refine ⟨turns + 1, fun fuel name rest outer output => ?_⟩
    rw [← Nat.add_assoc, List.cons_append, run_plain _ kept, ran]
    simp
  | @call trail token callee tokens body out called found fresh _ _ ihInner ihRest =>
    obtain ⟨inside, ranInner⟩ := ihInner
    obtain ⟨behind, ranRest⟩ := ihRest
    refine ⟨behind + 1 + inside + 1, fun fuel name rest outer output => ?_⟩
    have parts : fuel + (behind + 1 + inside + 1) = fuel + behind + 1 + inside + 1 := by omega
    have entered := ranInner (fuel + behind + 1) (some callee.name) []
      (⟨name, tokens ++ rest⟩ :: outer) output
    rw [List.append_nil] at entered
    have joined : output ++ (body ++ out) = output ++ body ++ out := by simp [← Array.toList_inj]
    rw [parts, List.cons_append, run_call _ called found fresh, entered, run_end, joined]
    exact ranRest fuel name rest outer _

theorem run_of_stops (stops : table.Stops trail tokens opened last flaw) :
    ∃ turns, ∀ fuel name rest outer output,
      run table (fuel + turns) ⟨⟨name, tokens ++ rest⟩ :: outer, trail, output⟩ =
        some (.error ⟨flaw, last.offset⟩) := by
  induction stops with
  | here called offence =>
    exact ⟨1, fun fuel name rest outer output => run_offence fuel called offence⟩
  | plain kept _ ih =>
    obtain ⟨turns, ran⟩ := ih
    refine ⟨turns + 1, fun fuel name rest outer output => ?_⟩
    rw [← Nat.add_assoc, List.cons_append, run_plain _ kept, ran]
  | @inside trail opened token last callee tokens flaw called found fresh _ ih =>
    obtain ⟨turns, ran⟩ := ih
    refine ⟨turns + 1, fun fuel name rest outer output => ?_⟩
    have entered := ran fuel (some callee.name) [] (⟨name, tokens ++ rest⟩ :: outer) output
    rw [List.append_nil] at entered
    rw [← Nat.add_assoc, List.cons_append, run_call _ called found fresh, entered]
  | @behind trail opened token last callee tokens body flaw called found fresh inner _ ih =>
    have passed : table.Passes trail [token] (body ++ []) := .call called found fresh inner .nil
    obtain ⟨before, ran⟩ := run_of_passes passed
    obtain ⟨behind, stopped⟩ := ih
    refine ⟨behind + before, fun fuel name rest outer output => ?_⟩
    rw [← Nat.add_assoc]
    exact (ran (fuel + behind) name (tokens ++ rest) outer output).trans
      (stopped fuel name rest outer _)

/-- Whatever the table, the loop ends, and with what `expand` gives. -/
theorem run_start (table : Table) (tokens : List Token) :
    ∃ turns, ∀ fuel ≥ turns, run table fuel (start tokens) = some (table.expand tokens) := by
  rcases Table.passes_or_stops (.nil table) tokens with
    ⟨out, passes⟩ | ⟨opened, last, flaw, stops⟩
  · obtain ⟨turns, ran⟩ := run_of_passes passes
    refine ⟨turns + 1, fun fuel enough => ?_⟩
    obtain ⟨extra, rfl⟩ := Nat.exists_eq_add_of_le enough
    have parts : turns + 1 + extra = extra + 1 + turns := by omega
    have ended := ran (extra + 1) none [] [] #[]
    rw [List.append_nil, run_end] at ended
    rw [parts, start, Table.expand_of_passes passes, ended]
    cases extra <;> simp [run]
  · obtain ⟨turns, ran⟩ := run_of_stops stops
    refine ⟨turns, fun fuel enough => ?_⟩
    obtain ⟨extra, rfl⟩ := Nat.exists_eq_add_of_le enough
    have ended := ran extra none [] [] #[]
    rw [List.append_nil] at ended
    rw [Nat.add_comm, start, Table.expand_of_stops stops, ended]

end Loop
end Brainfuck.Macro
