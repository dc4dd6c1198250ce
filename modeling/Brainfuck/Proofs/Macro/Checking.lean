import Brainfuck.Proofs.Macro.Acyclic
import Brainfuck.Proofs.Macro.Search

namespace Brainfuck.Macro.Table

variable {table : Table} {chain : List String} {opened : List String} {last : Token} {flaw : Flaw}

/-- What the check says to be wrong is wrong in the bodies of the table. -/
inductive Witnessed (table : Table) : Diagnostic → Prop where
  /-- The names of the chain are defined, and each calls the next. -/
  | recursive {chain : List String} {offset : Int} (cycle : table.Cycle chain)
      (defined : chain ⊆ table.names) : Witnessed table ⟨.recursiveCall chain, offset⟩
  /-- The call stands in the body of a name, and names no macro. -/
  | undefined {outer : String} {definition : Definition} {call : Token}
      (found : table.find? outer = some definition) (member : call ∈ definition.body)
      (called : call.isCall = true) (missing : ¬ table.Resolves call) :
      Witnessed table ⟨.undefinedMacro call.name, call.offset⟩

theorem subset_of_chained {names : List String} {final : String}
    (chained : (names ++ [final]).IsChain table.CallsName) : names ⊆ table.names := by
  induction names with
  | nil => exact List.nil_subset _
  | cons name names ih =>
    obtain ⟨calls, chained⟩ := List.isChain_cons.mp chained
    refine List.cons_subset.mpr ⟨?_, ih chained⟩
    have next : ∃ inner, (names ++ [final]).head? = some inner := by cases names <;> simp
    obtain ⟨inner, next⟩ := next
    obtain ⟨definition, call, found, -⟩ := calls inner next
    exact find?_isSome_iff.mp (by rw [found]; rfl)

theorem Cycle.subset (cycle : table.Cycle chain) : chain ⊆ table.names := by
  obtain ⟨name, inner, rfl⟩ := cycle.closed
  have defined := subset_of_chained cycle.linked
  have first := defined List.mem_cons_self
  exact List.append_subset.mpr ⟨defined, List.cons_subset.mpr ⟨first, List.nil_subset _⟩⟩

/-- What is wrong where the walk over the calls of the table stops is wrong in a body. -/
theorem Stops.witnessed (stops : table.Stops [] table.calls opened last flaw) :
    table.Witnessed ⟨flaw, last.offset⟩ := by
  cases stops.offence with
  | recursive found parts nearest =>
    have cycle := stops.cycle (.nil table table.calls)
    exact .recursive cycle cycle.subset
  | undefined missing =>
    have missing' : ¬ table.Resolves last := fun resolves => resolves_iff.mp resolves missing
    obtain ⟨called, member | ⟨outer, definition, found, inside⟩⟩ := stops.reaches.mem
    · exact absurd (resolves_of_mem_calls member) missing'
    · exact .undefined found inside called missing'

/-- The check of a table finds out what is wrong with its calls, if anything is. -/
structure ChecksExactly (table : Table) : Prop where
  ends : ∃ turns, ∀ fuel ≥ turns,
    Search.run table fuel (Search.start table) = some table.check
  succeeds : table.check = .ok () ↔ table.CallsResolve ∧ table.Acyclic
  refuses : ∀ diagnostic, table.check = .error diagnostic → table.Witnessed diagnostic

theorem check_exact (table : Table) : table.ChecksExactly where
  ends := Search.run_start table
  succeeds := by rw [check_eq_ok_iff, exists_substitutes_iff, sound_calls_iff]
  refuses diagnostic refused := by
    obtain ⟨opened, last, flaw, stops, same⟩ :=
      expand_eq_error_iff.mp (check_eq_error_iff.mp refused)
    subst same
    exact stops.witnessed

end Brainfuck.Macro.Table
