import Brainfuck.Macro.Table

/-! The call graph of a macro table: which calls may be entered, and a walk over
all definitions that finds a call of an undefined macro or a cycle if there is
one. -/

namespace Brainfuck.Macro

/-- The open calls from a name to the innermost one, and the name once more. The
trail of open calls has the innermost call first. -/
def chain (trail : List String) (name : String) : List String :=
  name :: (trail.takeWhile (· != name)).reverse ++ [name]

def recursion (trail : List String) (callee : Definition) (token : Token) : Diagnostic :=
  ⟨.recursiveCall (chain trail callee.name), token.offset⟩

namespace Table

/-- The definition that a call enters. It has to exist and must not be open. -/
def enter (table : Table) (trail : List String) (token : Token) : Except Diagnostic Definition :=
  match table.callee? token with
  | none => .error ⟨.undefinedMacro token.name, token.offset⟩
  | some callee =>
    if callee.name ∈ trail then .error (recursion trail callee token) else .ok callee

theorem enter_eq_ok_iff {table : Table} {trail : List String} {token : Token}
    {callee : Definition} :
    table.enter trail token = .ok callee ↔
      table.callee? token = some callee ∧ callee.name ∉ trail := by
  unfold enter
  split
  · next missing => simp [missing]
  · next found definition =>
    split
    · next opened =>
      simp only [reduceCtorEq, false_iff, definition, Option.some.injEq]
      rintro ⟨rfl, closed⟩
      exact closed opened
    · next closed =>
      simp only [definition, Except.ok.injEq, Option.some.injEq]
      exact ⟨fun same => ⟨same, same ▸ closed⟩, And.left⟩

/-- Follow a call through the bodies it reaches, depth first, and add the names
of the definitions that turn out sound to those known to be. The names of a trail
are distinct and defined, so the depth never exceeds the size of the table. -/
def visit (table : Table) (depth : Nat) (trail sound : List String) (token : Token) :
    Except Diagnostic (List String) :=
  if token.isCall then
    match table.enter trail token with
    | .error diagnostic => .error diagnostic
    | .ok callee =>
      if callee.name ∈ sound then .ok sound
      else
        match depth with
        | 0 => .error (recursion trail callee token)
        | depth + 1 =>
          match callee.body.foldlM (visit table depth (callee.name :: trail)) sound with
          | .error diagnostic => .error diagnostic
          | .ok reached => .ok (callee.name :: reached)
  else .ok sound

/-- The names in ascending order of their code points. -/
def sortedNames (table : Table) : List String :=
  table.names.mergeSort fun first second => decide (first ≤ second)

/-- A call of every name of the table. -/
def calls (table : Table) : List Token := table.sortedNames.map (Token.callOf · 0)

/-- Every call in a body names a defined macro, and no macro reaches itself. -/
def check (table : Table) : Except Diagnostic Unit :=
  match table.calls.foldlM (table.visit table.definitions.length []) [] with
  | .error diagnostic => .error diagnostic
  | .ok _ => .ok ()

end Table
end Brainfuck.Macro
