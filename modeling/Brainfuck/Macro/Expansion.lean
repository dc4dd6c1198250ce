import Brainfuck.Macro.CallGraph

namespace Brainfuck.Macro.Table

/-- Append what a token stands for. The names of a trail are distinct and
defined, so the depth never exceeds the size of the table. -/
def expandToken (table : Table) (depth : Nat) (trail : List String) (output : Array Token)
    (token : Token) : Except Diagnostic (Array Token) :=
  if token.isCall then
    match table.enter trail token with
    | .error diagnostic => .error diagnostic
    | .ok callee =>
      match depth with
      | 0 => .error (recursion trail callee token)
      | depth + 1 => callee.body.foldlM (expandToken table depth (callee.name :: trail)) output
  else .ok (output.push token)

/-- The tokens with all calls replaced, from left to right. -/
def expand (table : Table) (tokens : List Token) : Except Diagnostic (List Token) :=
  match tokens.foldlM (table.expandToken table.definitions.length []) #[] with
  | .error diagnostic => .error diagnostic
  | .ok output => .ok output.toList

end Brainfuck.Macro.Table
