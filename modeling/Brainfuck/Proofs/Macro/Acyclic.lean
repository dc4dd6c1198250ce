import Mathlib.Logic.Relation
import Brainfuck.Proofs.Macro.Agreement
import Brainfuck.Proofs.Macro.OpenCalls

namespace Brainfuck.Macro.Table

/-- The call names a macro of the table. -/
def Resolves (table : Table) (call : Token) : Prop :=
  ∃ name ∈ table.names, call.name = some name

/-- No name leads back to itself through calls in bodies. -/
def Acyclic (table : Table) : Prop :=
  ∀ name, ¬ Relation.TransGen table.CallsName name name

/-- Each call in a body that a name stands for names a macro of the table. -/
def CallsResolve (table : Table) : Prop :=
  ∀ name definition, table.find? name = some definition → ∀ call ∈ definition.body,
    call.isCall = true → table.Resolves call

/-- Each call in a body names a macro of the table. -/
def BodiesResolve (table : Table) : Prop :=
  ∀ definition ∈ table.definitions, ∀ call ∈ definition.body, call.isCall = true →
    table.Resolves call

variable {table : Table} {call : Token} {definition : Definition} {tokens : List Token}
  {outer inner : String}

theorem resolves_iff : table.Resolves call ↔ table.callee? call ≠ none := by
  cases named : call.name with
  | none => simp [Resolves, callee?, named]
  | some name => simp [Resolves, callee?, named, ← find?_isSome_iff, Option.isSome_iff_ne_none]

theorem exists_reaches_of_path (path : Relation.TransGen table.CallsName outer inner) :
    ∃ definition call, table.find? outer = some definition ∧
      table.Reaches definition.body call ∧ call.name = some inner := by
  induction path using Relation.TransGen.head_induction_on with
  | single calls =>
    obtain ⟨definition, call, found, member, called, named⟩ := calls
    exact ⟨definition, call, found, .here member called, named⟩
  | head calls _ ih =>
    obtain ⟨definition, call, found, member, called, named⟩ := calls
    obtain ⟨next, last, found', reaches, named'⟩ := ih
    have entered : table.callee? call = some next := by
      rw [callee?, named, Option.bind_some, found']
    exact ⟨definition, last, found, .through member called entered reaches, named'⟩

theorem Reaches.path (reaches : table.Reaches tokens call) (named : call.name = some inner)
    (found : table.find? outer = some definition) (within : tokens ⊆ definition.body) :
    Relation.TransGen table.CallsName outer inner := by
  induction reaches generalizing outer definition with
  | here member called => exact .single ⟨definition, _, found, within member, called, named⟩
  | @through tokens front _ callee member called entered _ ih =>
    obtain ⟨named', found'⟩ := callee?_name entered
    have calls : table.CallsName outer callee.name :=
      ⟨definition, front, found, within member, called, named'⟩
    exact .head calls (ih named found' (List.Subset.refl _))

theorem Reaches.mem (reaches : table.Reaches tokens call) :
    call.isCall = true ∧ (call ∈ tokens ∨
      ∃ name definition, table.find? name = some definition ∧ call ∈ definition.body) := by
  induction reaches with
  | here member called => exact ⟨called, .inl member⟩
  | through _ _ found _ ih =>
    obtain ⟨called, member | deeper⟩ := ih
    · exact ⟨called, .inr ⟨_, _, (callee?_name found).2, member⟩⟩
    · exact ⟨called, .inr deeper⟩

theorem resolves_of_mem_calls (member : call ∈ table.calls) : table.Resolves call := by
  obtain ⟨name, listed, rfl⟩ := List.mem_map.mp member
  exact ⟨name, (sortedNames_perm table).mem_iff.mp listed, rfl⟩

theorem callOf_mem_calls {name : String} (found : table.find? name = some definition) :
    .callOf name 0 ∈ table.calls := by
  have listed : name ∈ table.names := find?_isSome_iff.mp (by rw [found, Option.isSome_some])
  exact List.mem_map_of_mem ((sortedNames_perm table).mem_iff.mpr listed)

/-- A table is sound if its calls resolve and its call graph has no cycle. -/
theorem sound_calls_iff : table.Sound table.calls ↔ table.CallsResolve ∧ table.Acyclic := by
  constructor
  · intro sound
    constructor
    · intro name definition found call inside called
      have reaches : table.Reaches table.calls call :=
        .through (callOf_mem_calls found) rfl found (.here inside called)
      exact resolves_iff.mpr (sound.defined call reaches)
    · intro name path
      obtain ⟨definition, call, found, reaches, named⟩ := exists_reaches_of_path path
      have entered : table.callee? call = some definition := by
        rw [callee?, named, Option.bind_some, found]
      exact sound.acyclic (.callOf name 0) definition (.here (callOf_mem_calls found) rfl) found
        ⟨call, reaches, entered⟩
  · rintro ⟨resolve, acyclic⟩
    constructor
    · intro call reaches
      obtain ⟨called, member | ⟨name, definition, found, inside⟩⟩ := reaches.mem
      · exact resolves_iff.mp (resolves_of_mem_calls member)
      · exact resolves_iff.mp (resolve name definition found call inside called)
    · intro call callee _ found cyclic
      obtain ⟨again, reaches, entered⟩ := cyclic
      exact acyclic callee.name (reaches.path (callee?_name entered).1 (callee?_name found).2
        (List.Subset.refl _))

/-- With distinct names each definition is the one that its name stands for. -/
theorem callsResolve_iff (distinct : table.names.Nodup) :
    table.CallsResolve ↔ table.BodiesResolve := by
  constructor
  · intro resolve definition member
    exact resolve definition.name definition (find?_of_mem distinct member)
  · intro resolve name definition found
    exact resolve definition (find?_some_mem found)

/-- A table with distinct names passes its check if and only if its bodies resolve and its call
graph has no cycle. -/
theorem check_eq_ok_iff_acyclic (distinct : table.names.Nodup) :
    table.check = .ok () ↔ table.BodiesResolve ∧ table.Acyclic := by
  rw [check_eq_ok_iff, exists_substitutes_iff, sound_calls_iff, callsResolve_iff distinct]

end Brainfuck.Macro.Table
