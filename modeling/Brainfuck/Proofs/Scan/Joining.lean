import Mathlib.Data.List.Permutation
import Brainfuck.Proofs.Scan.Moves

namespace Brainfuck

/-- The token further on in a text. -/
def Token.moved (distance : Nat) (token : Token) : Token :=
  { token with offset := token.offset + distance }

/-- The definition further on in a text, and its body with it. -/
def Macro.Definition.moved (distance : Nat) (definition : Definition) : Definition :=
  { definition with
    body := definition.body.map (·.moved distance)
    offset := definition.offset + distance }

namespace Scan

def moved (distance : Nat) (scan : Scan) : Scan :=
  ⟨scan.tokens.map (·.moved distance), ⟨scan.table.definitions.map (·.moved distance)⟩⟩

/-- Two texts with blanks between them are read one after the other, up to a name that both
define. -/
structure ReadsJoined (front back : String) (gap : Blanks) (first second : Scan) : Prop where
  distinct : first.table.names.Disjoint second.table.names →
    ofSource (front ++ gap.text ++ back) =
      .ok (first.append (second.moved (front ++ gap.text).length))
  duplicate : ¬ first.table.names.Disjoint second.table.names → ∃ definition diagnostic,
    second.table.definitions.find? (fun other => decide (other.name ∈ first.table.names)) =
        some definition ∧
      ofSource (front ++ gap.text ++ back) = .error diagnostic ∧
      diagnostic = ⟨.duplicateDefinition definition.name,
        definition.offset + (front ++ gap.text).length⟩ ∧
      (diagnostic.report (front ++ gap.text ++ back)).kind = .duplicateMacroDefinition ∧
      (diagnostic.report (front ++ gap.text ++ back)).detail = .name (some definition.name) ∧
      (diagnostic.report (front ++ gap.text ++ back)).line =
        Text.lineOf (front ++ gap.text ++ back).toList
          (definition.offset + (front ++ gap.text).length)

variable {state : State} {offset : Nat} {items others : List Item} {parts : List Part}
  {scan : Scan} {taken : List String}

theorem wordTokens_moved (offset distance : Nat) (run : List Char) :
    wordTokens (offset + distance) run = (wordTokens offset run).map (·.moved distance) := by
  induction run generalizing offset with
  | nil => rfl
  | cons char run ih =>
    rw [wordTokens_cons, wordTokens_cons, List.map_append, ← ih, Nat.add_right_comm]
    cases Symbol.ofChar? char <;> rfl

theorem Piece.tokens_moved (offset distance : Nat) (piece : Piece) :
    piece.tokens (offset + distance) = (piece.tokens offset).map (·.moved distance) := by
  cases piece with
  | blanks run => rfl
  | call name => rfl
  | word run => exact wordTokens_moved offset distance run.chars

theorem tokensOf_moved (offset distance : Nat) (pieces : List Piece) :
    tokensOf (offset + distance) pieces = (tokensOf offset pieces).map (·.moved distance) := by
  induction pieces generalizing offset with
  | nil => rfl
  | cons piece pieces ih =>
    rw [tokensOf, tokensOf, List.map_append, ← ih, piece.tokens_moved, Nat.add_right_comm]

theorem Part.read_moved (offset distance : Nat) (part : Part) :
    part.read (offset + distance) = (part.read offset).moved distance := by
  cases part with
  | piece content =>
    rw [read, content.tokens_moved]
    rfl
  | definition name gap body =>
    rw [read, Nat.add_right_comm, tokensOf_moved]
    rfl

theorem moved_append (distance : Nat) (first second : Scan) :
    (first.append second).moved distance =
      (first.moved distance).append (second.moved distance) := by
  simp [append, moved]

theorem readOff_moved (offset distance : Nat) (parts : List Part) :
    readOff (offset + distance) parts = (readOff offset parts).moved distance := by
  induction parts generalizing offset with
  | nil => rfl
  | cons part parts ih =>
    rw [readOff, readOff, moved_append, ← ih, part.read_moved, Nat.add_right_comm]

theorem names_append (first second : Scan) :
    (first.append second).table.names = first.table.names ++ second.table.names := by
  simp [append, Macro.Table.names]

theorem names_readOff (offset : Nat) (parts : List Part) :
    (readOff offset parts).table.names = definedNames parts := by
  induction parts generalizing offset with
  | nil => rfl
  | cons part parts ih =>
    rw [readOff, names_append, ih, part.names_read, definedNames_cons]

theorem exists_first_taken (shared : ¬ taken.Disjoint (definedNames parts)) :
    ∃ (before : List Part) (name : Word) (gap : Option Blanks) (body : List Piece)
      (after : List Part), parts = before ++ .definition name gap body :: after ∧
        name.text ∈ taken ∧ taken.Disjoint (definedNames before) := by
  induction parts with
  | nil => exact absurd (List.disjoint_nil_right _) shared
  | cons part parts ih =>
    by_cases here : ∃ name ∈ part.definedName?, name ∈ taken
    · obtain ⟨_, named, known⟩ := here
      cases part with
      | piece content => cases named
      | definition name gap body =>
        cases named
        exact ⟨[], name, gap, body, parts, rfl, known, List.disjoint_nil_right _⟩
    · have apart : taken.Disjoint part.definedName?.toList := by
        intro name known named
        exact here ⟨name, Option.mem_toList.mp named, known⟩
      rw [definedNames_cons, List.disjoint_append_right, not_and] at shared
      obtain ⟨before, name, gap, body, after, rfl, known, free⟩ := ih (shared apart)
      refine ⟨part :: before, name, gap, body, after, rfl, known, ?_⟩
      rw [definedNames_cons]
      exact List.disjoint_append_right.mpr ⟨apart, free⟩

/-- The parts of two texts with blanks between them. -/
def between (parts : List Part) (gap : Blanks) (others : List Part) : List Part :=
  parts ++ .piece (.blanks gap) :: others

section between

variable {others : List Part} {gap : Blanks}

theorem textOf_between : textOf (between parts gap others) =
    textOf parts ++ gap.chars ++ textOf others := by
  simp [textOf, between, Part.chars, Piece.chars]

theorem definedNames_between :
    definedNames (between parts gap others) = definedNames parts ++ definedNames others := by
  rw [between, definedNames_append, definedNames_cons]
  rfl

theorem readOff_between : readOff 0 (between parts gap others) =
    (readOff 0 parts).append ((readOff 0 others).moved (textOf parts ++ gap.chars).length) := by
  have blanks (rest : Scan) : append ⟨[], .empty⟩ rest = rest := by
    simp [append, Macro.Table.empty]
  rw [between, readOff_append, readOff, ← readOff_moved, Nat.zero_add, Nat.zero_add,
    List.length_append]
  exact congrArg _ (blanks _)

theorem Separated.between (separated : Separated (parts.flatMap Part.items))
    (separated' : Separated (others.flatMap Part.items)) :
    Separated ((between parts gap others).flatMap Part.items) := by
  have behind : Separated (.piece (.blanks gap) :: others.flatMap Part.items) :=
    separated'.cons_of_not_endsWord rfl
  rw [Scan.between, List.flatMap_append, List.flatMap_cons]
  exact separated.append behind (by rintro _ ⟨⟩; rfl)

end between

/-- The first definition of a name that is taken is the one the parts before it lead to. -/
theorem find?_first_taken {name : Word} {gap : Option Blanks} {body : List Piece}
    {before after : List Part} (known : name.text ∈ taken)
    (free : taken.Disjoint (definedNames before)) :
    ∃ definition : Macro.Definition,
      (readOff 0 (before ++ .definition name gap body :: after)).table.definitions.find?
          (fun other => decide (other.name ∈ taken)) = some definition ∧
        definition.name = name.text ∧ definition.offset = (textOf before).length := by
  have none_before : (readOff 0 before).table.definitions.find?
      (fun other => decide (other.name ∈ taken)) = none := by
    refine List.find?_eq_none.mpr fun other member found => ?_
    refine free (of_decide_eq_true found) ?_
    rw [← names_readOff 0 before]
    exact List.mem_map_of_mem member
  rw [readOff_append, readOff, append, List.find?_append, none_before, Option.none_or]
  refine ⟨_, List.find?_cons_of_pos (decide_eq_true known), rfl, ?_⟩
  rw [Nat.zero_add]

/-- A name that the parts define is not defined again behind them. -/
theorem ofSource_redefinition {source : String} {name : Word} {gap : Option Blanks}
    (distinct : (definedNames parts).Nodup) (known : name.text ∈ definedNames parts)
    (separated : Separated (parts.flatMap Part.items ++ .opening name gap :: items))
    (spelled : spell (parts.flatMap Part.items ++ .opening name gap :: items) = source.toList) :
    ofSource source = .error ⟨.duplicateDefinition name.text, (textOf parts).length⟩ := by
  have reads : Reads {} 0 (parts.flatMap Part.items) (readOff 0 parts) :=
    (reads_parts_iff rfl).mpr ⟨distinct, by simp [State.names], by simp [append]⟩
  obtain ⟨last, outside, said, leads⟩ := reads.leads separated
  have names : last.names = definedNames parts := by
    rw [← names_readOff 0 parts, ← said]
    rfl
  rw [spell_parts, Nat.zero_add, spelled] at leads
  exact ofSource_eq_error_iff.mpr ⟨_, leads, .duplicate name gap outside (names ▸ known)⟩

section between

variable {source : String} {others : List Part} {gap : Blanks}
  (distinct : (definedNames parts).Nodup) (distinct' : (definedNames others).Nodup)
  (separated : Separated ((between parts gap others).flatMap Part.items))
  (spelled : spell ((between parts gap others).flatMap Part.items) = source.toList)
include distinct distinct' separated spelled

theorem ofSource_between (disjoint : (definedNames parts).Disjoint (definedNames others)) :
    ofSource source = .ok ((readOff 0 parts).append
      ((readOff 0 others).moved (textOf parts ++ gap.chars).length)) := by
  refine ofSource_eq_ok_iff.mpr ⟨_, spelled, separated, (reads_parts_iff rfl).mpr ⟨?_, ?_, ?_⟩⟩
  · rw [definedNames_between]
    exact List.Nodup.append distinct distinct' disjoint
  · simp [State.names]
  · simp [readOff_between, append]

/-- If a name is shared, reading stops at the first definition behind the gap that has such a
name. -/
theorem ofSource_between_shared
    (shared : ¬ (definedNames parts).Disjoint (definedNames others)) :
    ∃ definition : Macro.Definition, (readOff 0 others).table.definitions.find?
          (fun other => decide (other.name ∈ definedNames parts)) = some definition ∧
      ofSource source = .error ⟨.duplicateDefinition definition.name,
        definition.offset + (textOf parts ++ gap.chars).length⟩ := by
  obtain ⟨before, name, gap', body, after, rfl, known, free⟩ := exists_first_taken shared
  obtain ⟨definition, found, named, placed⟩ := find?_first_taken known free
  have items : (between parts gap (before ++ .definition name gap' body :: after)).flatMap
        Part.items = (between parts gap before).flatMap Part.items ++
      .opening name gap' :: (body.map .piece ++ .closing :: after.flatMap Part.items) := by
    simp [between, Part.items]
  rw [items] at separated spelled
  have apart : (definedNames (between parts gap before)).Nodup := by
    rw [definedNames_append] at distinct'
    rw [definedNames_between]
    exact List.Nodup.append distinct distinct'.of_append_left free
  have taken : name.text ∈ definedNames (between parts gap before) := by
    rw [definedNames_between]
    exact List.mem_append_left _ known
  have place : ((textOf (between parts gap before)).length : Int) =
      definition.offset + (textOf parts ++ gap.chars).length := by
    rw [textOf_between, List.length_append, placed]
    omega
  refine ⟨definition, found, ?_⟩
  rw [ofSource_redefinition apart taken separated spelled, named, place]

end between

/-- Texts that can be read can be read behind one another, up to a name that both define. -/
theorem ofSource_join {front back : String} {first second : Scan}
    (read : ofSource front = .ok first) (read' : ofSource back = .ok second) (gap : Blanks) :
    ReadsJoined front back gap first second := by
  obtain ⟨parts, splits, distinct, rfl⟩ := ofSource_eq_ok_iff_splits.mp read
  obtain ⟨others, splits', distinct', rfl⟩ := ofSource_eq_ok_iff_splits.mp read'
  have separated : Separated ((between parts gap others).flatMap Part.items) :=
    splits.maximal.separated.between splits'.maximal.separated
  have chars : (front ++ gap.text).toList = textOf parts ++ gap.chars := by
    rw [splits.spelled, String.toList_append, Run.text, String.toList_ofList]
  have spelled : spell ((between parts gap others).flatMap Part.items) =
      (front ++ gap.text ++ back).toList := by
    rw [spell_parts, textOf_between, splits'.spelled, String.toList_append, chars]
  have length : (front ++ gap.text).length = (textOf parts ++ gap.chars).length := by
    rw [← chars, String.length_toList]
  constructor <;> rw [names_readOff, names_readOff, length]
  · exact ofSource_between distinct distinct' separated spelled
  · intro shared
    obtain ⟨definition, found, refused⟩ :=
      ofSource_between_shared distinct distinct' separated spelled shared
    exact ⟨definition, _, found, refused, rfl, rfl, rfl, rfl⟩

/-- Two texts with a line feed between them, and the second one behind itself. -/
theorem ofSource_join_lines :
    ofSource "a\x7b-\x7d+" =
        .ok ⟨[.ofSymbol .increment 4], ⟨[⟨"a", [.ofSymbol .decrement 2], 0⟩]⟩⟩ ∧
      ofSource "b \x7b\x7d@a@" = .ok ⟨[.callOf "a" 4], ⟨[⟨"b", [], 0⟩]⟩⟩ ∧
      ofSource "a\x7b-\x7d+\nb \x7b\x7d@a@" = .ok ⟨[.ofSymbol .increment 4, .callOf "a" 10],
        ⟨[⟨"a", [.ofSymbol .decrement 2], 0⟩, ⟨"b", [], 6⟩]⟩⟩ ∧
      ofSource "b \x7b\x7d@a@\nb \x7b\x7d@a@" = .error ⟨.duplicateDefinition "b", 8⟩ := by
  let feed : Blanks := ⟨['\n'], List.cons_ne_nil _ _, List.forall_mem_singleton.mpr rfl⟩
  have front : ofSource "a\x7b-\x7d+" =
      .ok ⟨[.ofSymbol .increment 4], ⟨[⟨"a", [.ofSymbol .decrement 2], 0⟩]⟩⟩ := by cbv
  have back : ofSource "b \x7b\x7d@a@" = .ok ⟨[.callOf "a" 4], ⟨[⟨"b", [], 0⟩]⟩⟩ := by cbv
  have joined : "a\x7b-\x7d+" ++ feed.text ++ "b \x7b\x7d@a@" =
      "a\x7b-\x7d+\nb \x7b\x7d@a@" := by decide
  have twice : "b \x7b\x7d@a@" ++ feed.text ++ "b \x7b\x7d@a@" =
      "b \x7b\x7d@a@\nb \x7b\x7d@a@" := by decide
  refine ⟨front, back, ?_, ?_⟩
  · have read := (ofSource_join front back feed).distinct (by simp [Macro.Table.names])
    rw [joined] at read
    exact read.trans (by cbv)
  · obtain ⟨definition, diagnostic, found, refused, rfl, -⟩ :=
      (ofSource_join back back feed).duplicate fun apart =>
        apart List.mem_cons_self List.mem_cons_self
    cases found
    rw [twice] at refused
    exact refused.trans (by cbv)

end Scan
end Brainfuck
