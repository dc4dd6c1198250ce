import Brainfuck.Build
import Brainfuck.Proofs.Scan.Pasting

/-! A call means the text of the body that it names. If that text stands between two spaces
where the call stood, outside of all definitions or in a body, the text as a whole still
means what it meant. -/

namespace Brainfuck

/-- The name of a definition stands in a text where the definition says, and behind it, in
braces, the body. -/
def Macro.Definition.Encloses (definition : Macro.Definition) (text body : List Char) : Prop :=
  ∃ before gap after,
    text = before ++ definition.name.toList ++ gap ++ '\x7b' :: body ++ '\x7d' :: after ∧
      definition.offset = before.length ∧ (∀ char ∈ gap, Text.isBlank char = true) ∧
      '\x7d' ∉ body

theorem Macro.Definition.Encloses.unique {definition : Macro.Definition}
    {text body other : List Char} (first : definition.Encloses text body)
    (second : definition.Encloses text other) : body = other := by
  obtain ⟨before, gap, after, rfl, place, blank, unclosed⟩ := first
  obtain ⟨before', gap', after', same, place', blank', unclosed'⟩ := second
  have long : before.length = before'.length := by omega
  simp only [List.append_assoc, List.cons_append] at same
  have behind := List.append_cancel_left (List.append_inj_right same long)
  have braced := congrArg (List.dropWhile Text.isBlank) behind
  rw [List.dropWhile_append_of_pos blank, List.dropWhile_append_of_pos blank',
    List.dropWhile_cons_of_neg (by decide), List.dropWhile_cons_of_neg (by decide)] at braced
  have other {body : List Char} (unclosed : '\x7d' ∉ body) :
      ∀ char ∈ body, (char != '\x7d') = true := by
    intro char member
    rw [bne_iff_ne]
    rintro rfl
    exact unclosed member
  have inside := congrArg (List.takeWhile (· != '\x7d')) (List.cons.inj braced).2
  rw [List.takeWhile_append_of_pos (other unclosed), List.takeWhile_append_of_pos (other unclosed')]
    at inside
  simpa using inside

namespace Scan

/-- One space between other pieces. -/
def space : Piece := .blanks ⟨[' '], by simp, List.forall_mem_singleton.mpr (by decide)⟩

variable {scan changed : Scan} {definition : Macro.Definition} {call : Token}
  {tokens : List Token} {items others : List Item}

/-- Separated pieces may stand between two spaces in place of any item. -/
theorem Separated.paste {before after : List Item} {item : Item} {inner : List Piece}
    (outer : Separated (before ++ item :: after)) (pieces : Separated (inner.map .piece)) :
    Separated (before ++ ((space :: inner ++ [space]).map .piece ++ after)) := by
  have behind : Separated (.piece space :: after) :=
    (Separated.tail outer.right_of_append).cons_of_not_endsWord rfl
  have middle : Separated (inner.map .piece ++ .piece space :: after) :=
    pieces.append behind (by rintro _ ⟨⟩; rfl)
  have front : Separated (.piece space :: (inner.map .piece ++ .piece space :: after)) :=
    middle.cons_of_not_endsWord rfl
  have whole := Separated.append outer.left_of_append front (by rintro _ ⟨⟩; rfl)
  simpa using whole

theorem closingBrace_notMem_spell (inner : List Piece) : '\x7d' ∉ spell (inner.map .piece) := by
  have filled {test : Char → Bool} (run : Run test) : test '\x7d' = false → '\x7d' ∉ run.chars := by
    intro fails member
    simp [run.passes _ member] at fails
  induction inner with
  | nil => simp
  | cons piece inner ih =>
    rw [List.map_cons, spell_cons, List.mem_append, not_or]
    refine ⟨?_, ih⟩
    cases piece with
    | blanks run => exact filled run (by decide)
    | word run => exact filled run (by decide)
    | call name => simpa [Item.chars, Piece.chars, callMark] using filled name (by decide)

theorem tokensOf_spaced (place : Nat) (inner : List Piece) :
    tokensOf place (space :: inner ++ [space]) = tokensOf (place + 1) inner := by
  simp [tokensOf, tokensOf_append, space, Piece.tokens, Piece.chars]

/-- A definition among items encloses the text of pieces, which say what its body says. -/
theorem DefinedAmong.exists_pieces (defined : DefinedAmong definition 0 items)
    (separated : Separated items) :
    ∃ inner : List Piece, definition.Encloses (spell items) (spell (inner.map .piece)) ∧
      Separated (inner.map .piece) ∧
      ∀ place, List.Forall₂ Token.Alike definition.body (tokensOf place inner) := by
  obtain ⟨before, name, gap, inner, after, rfl, rfl⟩ := defined
  refine ⟨inner, ⟨spell before, Item.gapChars gap, spell after, ?_, ?_, ?_, ?_⟩, ?_, ?_⟩
  · simp [Item.chars, Run.text]
  · simp
  · cases gap with
    | none => simp [Item.gapChars]
    | some gap => exact gap.passes
  · exact closingBrace_notMem_spell inner
  · exact (Separated.tail separated.right_of_append).left_of_append
  · exact fun place => tokensOf_alike _ place inner

theorem exists_callee (flat : scan.flatten = .ok tokens) (distinct : scan.table.names.Nodup)
    (held : scan.Holds call) (called : call.isCall = true) :
    ∃ callee, scan.table.callee? call = some callee := by
  obtain ⟨checked, expanded⟩ := flatten_eq_ok_iff.mp flat
  rcases held with outside | ⟨definition, member, inside⟩
  · have substitutes := Macro.Table.expand_eq_ok_iff_substitutes.mp expanded
    obtain ⟨callee, -, found, -⟩ := substitutes.of_mem outside called
    exact ⟨callee, found⟩
  · exact Macro.Table.exists_callee checked distinct member inside called

/-- Bodies in place of calls do not change what a scan is flattened to. -/
theorem Pastes.flatten (pastes : scan.Pastes scan.table changed)
    (flat : scan.flatten = .ok tokens) :
    ∃ pasted, changed.flatten = .ok pasted ∧ List.Forall₂ Token.Alike tokens pasted := by
  obtain ⟨checked, expanded⟩ := flatten_eq_ok_iff.mp flat
  have changes : scan.table.PastesInto changed.table := pastes.definitions
  have substitutes := Macro.Table.expand_eq_ok_iff_substitutes.mp expanded
  obtain ⟨pasted, substitutes', alike⟩ := substitutes.of_pastes pastes.tokens changes
  refine ⟨pasted, flatten_eq_ok_iff.mpr ⟨changes.check checked, ?_⟩, alike⟩
  exact Macro.Table.expand_eq_ok_iff_substitutes.mpr substitutes'

/-- A call that was read stands in the text, and the definition that it calls encloses a
text there. With that text instead of the call, bodies stand in place of calls. -/
theorem exists_pastes {source : String} (read : ofSource source = .ok scan)
    (flat : scan.flatten = .ok tokens) (held : scan.Holds call) (called : call.isCall = true) :
    ∃ before after callee body,
      source.toList = before ++ call.text.toList ++ after ∧ call.offset = before.length ∧
      scan.table.callee? call = some callee ∧ callee.Encloses source.toList body ∧
      ∃ changed, ofSource (String.ofList (before ++ ' ' :: body ++ ' ' :: after)) = .ok changed ∧
        scan.Pastes scan.table changed := by
  obtain ⟨items, same, separated, reads⟩ := ofSource_eq_ok_iff.mp read
  have distinct := reads.names_nodup (by simp [State.Distinct])
  obtain ⟨callee, found⟩ := exists_callee flat distinct held called
  have member := Macro.Table.find?_some_mem (Macro.Table.callee?_name found).2
  have defined := reads.definedAmong member
  obtain ⟨inner, encloses, pieces, alike⟩ := defined.exists_pieces separated
  obtain ⟨before, name, after, rfl, rfl⟩ := reads.calledAmong held called
  have spaced : ∀ place, List.Forall₂ Token.Alike callee.body
      (tokensOf place (space :: inner ++ [space])) := by
    intro place
    rw [tokensOf_spaced]
    exact alike (place + 1)
  have replaced : Pasted scan.table _ _ :=
    .append_left before (.paste _ found spaced (.refl scan.table after))
  obtain ⟨changed, reads', pastes⟩ := reads.paste (.nil scan.table) replaced 0
  refine ⟨spell before, spell after, callee, spell (inner.map .piece), ?_, rfl, found,
    same ▸ encloses, changed, ?_, pastes⟩
  · simp [← same, Item.chars, Piece.chars, Token.text, Token.callOf, Run.text]
  · refine ofSource_eq_ok_iff.mpr ⟨_, ?_, separated.paste pieces, reads'⟩
    simp [Item.chars, Piece.chars, space]

end Scan

/-- A call stands in a text where its token says and names a definition, which encloses a
body there. With that body between two spaces in place of the call, the text has the same
symbols. -/
def CallMeansBody (source : String) (scan : Scan) (call : Token) (glyphs : List Glyph) : Prop :=
  ∃ before after callee,
    source.toList = before ++ call.text.toList ++ after ∧ call.offset = before.length ∧
    scan.table.callee? call = some callee ∧ (∃ body, callee.Encloses source.toList body) ∧
    ∀ body, callee.Encloses source.toList body →
      ∃ pasted, preprocess (String.ofList (before ++ ' ' :: body ++ ' ' :: after)) = .ok pasted ∧
        pasted.map (·.glyph) = glyphs

theorem call_means_body {source : String} {scan : Scan} {tokens : List Token} {call : Token}
    (done : preprocess source = .ok tokens) (read : Scan.ofSource source = .ok scan)
    (held : scan.Holds call) (called : call.isCall = true) :
    CallMeansBody source scan call (tokens.map (·.glyph)) := by
  obtain ⟨scan', read', flat⟩ := preprocess_eq_ok_iff.mp done
  cases read.symm.trans read'
  obtain ⟨before, after, callee, body, same, place, found, encloses, changed, changes, pastes⟩ :=
    Scan.exists_pastes read flat held called
  refine ⟨before, after, callee, same, place, found, ⟨body, encloses⟩, ?_⟩
  intro other encloses'
  cases encloses.unique encloses'
  obtain ⟨pasted, flat', alike⟩ := pastes.flatten flat
  refine ⟨pasted, preprocess_eq_ok_iff.mpr ⟨changed, changes, flat'⟩, ?_⟩
  exact Token.glyphs_eq_of_alike alike

/-- A call in a body, before the definition that it names. -/
theorem call_means_body_inside :
    ∃ scan, Scan.ofSource "k{>@m@#}m {+ note,}x.@k@<" = .ok scan ∧
      CallMeansBody "k{>@m@#}m {+ note,}x.@k@<" scan (.callOf "m" 3)
        [.symbol .output, .symbol .right, .symbol .increment, .symbol .input, .symbol .breakpoint,
          .symbol .left] := by
  refine ⟨⟨[.ofSymbol .output 20, .callOf "k" 21, .ofSymbol .left 24],
    ⟨[⟨"k", [.ofSymbol .right 2, .callOf "m" 3, .ofSymbol .breakpoint 6], 0⟩,
      ⟨"m", [.ofSymbol .increment 11, .ofSymbol .input 17], 8⟩]⟩⟩, by cbv, ?_⟩
  have done : preprocess "k{>@m@#}m {+ note,}x.@k@<" =
      .ok [.ofSymbol .output 20, .ofSymbol .right 2, .ofSymbol .increment 11, .ofSymbol .input 17,
        .ofSymbol .breakpoint 6, .ofSymbol .left 24] := by cbv
  refine call_means_body done (by cbv) (.inr ⟨_, List.mem_cons_self, ?_⟩) rfl
  decide

end Brainfuck
