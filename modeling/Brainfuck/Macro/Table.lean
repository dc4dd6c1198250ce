import Brainfuck.Token

/-! Macro definitions and the table that calls are looked up in. -/

namespace Brainfuck.Macro

structure Definition where
  name : String
  body : List Token
  /-- Where the name stands in the text. -/
  offset : Int := 0
  deriving DecidableEq, Repr

/-- Definitions in the order in which their names were first defined. -/
structure Table where
  definitions : List Definition
  deriving DecidableEq, Repr

namespace Table

def empty : Table := ⟨[]⟩

def names (table : Table) : List String := table.definitions.map (·.name)

def find? (table : Table) (name : String) : Option Definition :=
  table.definitions.find? (·.name == name)

/-- The definition a token calls; none if it has no name or nobody defined it. -/
def callee? (table : Table) (token : Token) : Option Definition :=
  token.name.bind table.find?

/-- Define a name. A name that is defined already keeps its place. -/
def insert (table : Table) (definition : Definition) : Table :=
  if definition.name ∈ table.names then
    ⟨table.definitions.map fun old => if old.name = definition.name then definition else old⟩
  else ⟨table.definitions ++ [definition]⟩

def ofList (definitions : List Definition) : Table := definitions.foldl insert empty

theorem find?_some_name {table : Table} {name : String} {definition : Definition}
    (found : table.find? name = some definition) : definition.name = name := by
  simpa using List.find?_some found

theorem find?_some_mem {table : Table} {name : String} {definition : Definition}
    (found : table.find? name = some definition) : definition ∈ table.definitions :=
  List.mem_of_find?_eq_some found

theorem find?_of_mem {table : Table} {definition : Definition} (distinct : table.names.Nodup)
    (member : definition ∈ table.definitions) :
    table.find? definition.name = some definition := by
  obtain ⟨definitions⟩ := table
  induction definitions with
  | nil => cases member
  | cons first rest ih =>
    obtain ⟨absent, distinct⟩ := List.nodup_cons.mp distinct
    rcases List.mem_cons.mp member with rfl | later
    · simp [find?]
    · have other : first.name ≠ definition.name := by
        intro same
        exact absent (List.mem_map.mpr ⟨definition, later, same.symm⟩)
      simpa [find?, other] using ih distinct later

theorem find?_isSome_iff {table : Table} {name : String} :
    (table.find? name).isSome ↔ name ∈ table.names := by
  simp [find?, names, List.find?_isSome]

end Table
end Brainfuck.Macro
