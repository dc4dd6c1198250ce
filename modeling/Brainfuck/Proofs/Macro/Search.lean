import Mathlib.Logic.Relation
import Brainfuck.Proofs.Macro.Agreement

/-! The check of a table as one loop over a stack of frames, with no recursion. For every table the
loop comes to an end, and with what the check gives. -/

namespace Brainfuck.Macro

/-- The body of the macro that a name is defined as. -/
def Table.bodyOf (table : Table) (name : String) : List Token :=
  ((table.find? name).map (·.body)).getD []

/-- The names that are still to be followed, what is left of the bodies of those that are being
followed, and the names that are done. The innermost frame and the innermost name come first. -/
structure Search where
  roots : List String
  frames : List (String × List Token) := []
  path : List String := []
  onPath : List String := []
  done : List String := []

namespace Search

def start (table : Table) : Search := { roots := table.sortedNames }

/-- Begin the body of a name. -/
def follow (table : Table) (search : Search) (name : String) : Search :=
  { search with
    frames := (name, table.bodyOf name) :: search.frames
    path := name :: search.path
    onPath := name :: search.onPath }

/-- Leave the innermost frame at its end. -/
def leave (search : Search) (name : String) (outer : List (String × List Token)) : Search :=
  { search with
    frames := outer
    path := search.path.tail
    onPath := search.onPath.erase name
    done := name :: search.done }

/-- Take the next name, leave the innermost frame, or read its next token. Nothing is left to do
without names and frames. -/
def turn (table : Table) (search : Search) : Except Diagnostic (Option Search) :=
  match search.frames with
  | [] =>
    match search.roots with
    | [] => .ok none
    | root :: roots =>
      if root ∈ search.done then .ok (some { search with roots })
      else .ok (some (follow table { roots, done := search.done } root))
  | (name, []) :: outer => .ok (some (search.leave name outer))
  | (name, token :: rest) :: outer =>
    let next := { search with frames := (name, rest) :: outer }
    if token.isCall then
      match table.callee? token with
      | none => .error ⟨.undefinedMacro token.name, token.offset⟩
      | some callee =>
        if callee.name ∈ search.onPath then .error (recursion search.path callee token)
        else if callee.name ∈ search.done then .ok (some next)
        else .ok (some (next.follow table callee.name))
    else .ok (some next)

/-- Turn until nothing is left to do; nothing if that takes more turns than the fuel. -/
def run (table : Table) : Nat → Search → Option (Except Diagnostic Unit)
  | 0, _ => none
  | fuel + 1, search =>
    match search.turn table with
    | .error diagnostic => some (.error diagnostic)
    | .ok none => some (.ok ())
    | .ok (some next) => run table fuel next

/-- Turns lead from one state of the search to another. -/
def Leads (table : Table) : Search → Search → Prop :=
  Relation.ReflTransGen fun search next => search.turn table = .ok (some next)

/-- Turns lead to one that gives a result. -/
def Ends (table : Table) (search : Search) (result : Except Diagnostic Unit) : Prop :=
  ∃ last, Leads table search last ∧ last.turn table = result.map fun _ => none

variable {table : Table} {search next : Search} {result : Except Diagnostic Unit}
  {trail sound : List String} {token : Token} {callee : Definition} {tokens rest : List Token}
  {name : String} {roots : List String} {outer : List (String × List Token)} {depth : Nat}
  {diagnostic : Diagnostic} {flaw : Flaw}

namespace Ends

theorem of_turn (turned : search.turn table = .ok (some next)) (ends : Ends table next result) :
    Ends table search result := by
  obtain ⟨last, leads, ended⟩ := ends
  exact ⟨last, .head turned leads, ended⟩

theorem of_error (refused : search.turn table = .error diagnostic) :
    Ends table search (.error diagnostic) := ⟨search, .refl, refused⟩

theorem run (ends : Ends table search result) :
    ∃ turns, ∀ fuel ≥ turns, Search.run table fuel search = some result := by
  obtain ⟨last, leads, ended⟩ := ends
  induction leads using Relation.ReflTransGen.head_induction_on with
  | refl =>
    refine ⟨1, fun fuel enough => ?_⟩
    obtain ⟨less, rfl⟩ := Nat.exists_eq_add_of_le' enough
    cases result <;> simp [Search.run, ended, Except.map]
  | head turned _ ih =>
    obtain ⟨turns, ran⟩ := ih
    refine ⟨turns + 1, fun fuel enough => ?_⟩
    obtain ⟨less, rfl⟩ := Nat.exists_eq_add_of_le' enough
    rw [← Nat.add_assoc, Search.run, turned]
    exact ran _ (Nat.le_add_left _ _)

end Ends

theorem bodyOf_callee (found : table.callee? token = some callee) :
    table.bodyOf callee.name = callee.body := by
  rw [Table.bodyOf, (Table.callee?_name found).2]
  rfl

theorem turn_plain (kept : token.isCall = false) :
    turn table ⟨roots, (name, token :: rest) :: outer, trail, trail, sound⟩ =
      .ok (some ⟨roots, (name, rest) :: outer, trail, trail, sound⟩) := by
  simp [turn, kept]

theorem turn_offence (called : token.isCall = true)
    (offence : table.Offence trail token flaw) :
    turn table ⟨roots, (name, token :: rest) :: outer, trail, trail, sound⟩ =
      .error ⟨flaw, token.offset⟩ := by
  cases offence with
  | undefined missing => simp [turn, called, missing]
  | recursive found parts nearest =>
    simp [turn, called, found, parts, recursion, Table.chain_append nearest]

theorem turn_known (called : token.isCall = true) (found : table.callee? token = some callee)
    (fresh : callee.name ∉ trail) (known : callee.name ∈ sound) :
    turn table ⟨roots, (name, token :: rest) :: outer, trail, trail, sound⟩ =
      .ok (some ⟨roots, (name, rest) :: outer, trail, trail, sound⟩) := by
  simp [turn, called, found, fresh, known]

theorem turn_follow (called : token.isCall = true) (found : table.callee? token = some callee)
    (fresh : callee.name ∉ trail) (unknown : callee.name ∉ sound) :
    turn table ⟨roots, (name, token :: rest) :: outer, trail, trail, sound⟩ =
      .ok (some ⟨roots, (callee.name, callee.body) :: (name, rest) :: outer,
        callee.name :: trail, callee.name :: trail, sound⟩) := by
  simp [turn, called, found, fresh, unknown, follow, bodyOf_callee found]

theorem turn_leave : turn table ⟨roots, (name, []) :: outer, name :: trail, name :: trail, sound⟩ =
    .ok (some ⟨roots, outer, trail, trail, name :: sound⟩) := by
  simp [turn, leave]

/-- The search reads the tokens of a body as the check does: it goes on behind them with the names
that are done then, or ends with what is wrong among them. -/
theorem ends_of_tokens (opens : table.Opens trail)
    (room : table.definitions.length ≤ depth + trail.length)
    (later : ∀ reached, tokens.foldlM (table.visit depth trail) sound = .ok reached →
      Ends table ⟨roots, (name, rest) :: outer, trail, trail, reached⟩ result)
    (stopped : ∀ diagnostic, tokens.foldlM (table.visit depth trail) sound = .error diagnostic →
      result = .error diagnostic) :
    Ends table ⟨roots, (name, tokens ++ rest) :: outer, trail, trail, sound⟩ result := by
  induction depth using Nat.strongRecOn generalizing trail sound tokens name rest outer with
  | ind depth deeper =>
    induction tokens generalizing sound with
    | nil => exact later sound rfl
    | cons token tokens ih =>
      have behind (next : List String) (visited : table.visit depth trail sound token = .ok next) :
          Ends table ⟨roots, (name, tokens ++ rest) :: outer, trail, trail, next⟩ result := by
        have same : (token :: tokens).foldlM (table.visit depth trail) sound =
            tokens.foldlM (table.visit depth trail) next := by
          rw [List.foldlM_cons, visited]
          rfl
        rw [same] at later stopped
        exact ih later stopped
      have refused (diagnostic : Diagnostic)
          (visited : table.visit depth trail sound token = .error diagnostic) :
          result = .error diagnostic := by
        apply stopped diagnostic
        rw [List.foldlM_cons, visited]
        rfl
      cases called : token.isCall with
      | false => exact .of_turn (turn_plain called) (behind sound (Table.visit_plain called))
      | true =>
        cases entered : table.enter trail token with
        | error diagnostic =>
          obtain ⟨flaw, offence, rfl⟩ := Table.exists_offence entered
          rw [refused _ (Table.visit_offence called offence)]
          exact .of_error (turn_offence called offence)
        | ok callee =>
          obtain ⟨found, fresh⟩ := Table.enter_eq_ok_iff.mp entered
          by_cases known : callee.name ∈ sound
          · exact .of_turn (turn_known called found fresh known)
              (behind sound (Table.visit_known called found fresh known))
          · obtain ⟨less, rfl, room'⟩ := opens.exists_depth found fresh room
            have visited : table.visit (less + 1) trail sound token = _ :=
              Table.visit_call called found fresh known
            refine .of_turn (turn_follow called found fresh known) ?_
            rw [← List.append_nil callee.body]
            apply deeper less (Nat.lt_succ_self less) (opens.cons found fresh) room'
            · intro reached inner
              rw [inner] at visited
              exact .of_turn turn_leave (behind _ visited)
            · intro diagnostic inner
              rw [inner] at visited
              exact refused _ visited

/-- The search follows the names of the table as the check does. -/
theorem ends_of_roots (listed : roots ⊆ table.names) :
    Ends table ⟨roots, [], [], [], sound⟩
      (((roots.map (Token.callOf · 0)).foldlM (table.visit table.definitions.length []) sound).map
        fun _ => ()) := by
  induction roots generalizing sound with
  | nil => exact ⟨_, .refl, rfl⟩
  | cons root roots ih =>
    obtain ⟨member, others⟩ := List.cons_subset.mp listed
    obtain ⟨definition, present⟩ := Option.isSome_iff_exists.mp (Table.find?_isSome_iff.mpr member)
    have found : table.callee? (.callOf root 0) = some definition := present
    cases Table.find?_some_name present
    rw [List.map_cons, List.foldlM_cons]
    by_cases known : definition.name ∈ sound
    · rw [Table.visit_known rfl found List.not_mem_nil known]
      exact .of_turn (by simp [turn, known]) (ih others)
    · obtain ⟨less, depth, room⟩ := (Table.Opens.nil table).exists_depth found List.not_mem_nil
        (Nat.le_refl table.definitions.length)
      have begun : turn table ⟨definition.name :: roots, [], [], [], sound⟩ =
          .ok (some ⟨roots, [(definition.name, definition.body ++ [])], [definition.name],
            [definition.name], sound⟩) := by
        simp [turn, known, follow, bodyOf_callee found]
      rw [depth] at ih ⊢
      rw [Table.visit_call rfl found List.not_mem_nil known]
      apply Ends.of_turn begun
      apply ends_of_tokens ((Table.Opens.nil table).cons found List.not_mem_nil) room
      · intro reached inner
        rw [inner]
        exact .of_turn turn_leave (ih others)
      · intro diagnostic inner
        rw [inner]
        rfl

/-- Whatever the table, the search ends, and with what `check` gives. -/
theorem run_start (table : Table) :
    ∃ turns, ∀ fuel ≥ turns, run table fuel (start table) = some table.check := by
  have checked : table.check =
      (table.calls.foldlM (table.visit table.definitions.length []) []).map fun _ => () := by
    rw [Table.check]
    split <;> simp [*, Except.map]
  rw [checked]
  exact (ends_of_roots (Table.sortedNames_perm table).subset).run

end Search
end Brainfuck.Macro
