import Brainfuck.Proofs.Scan.Origins

/-! The grammar of program texts as a whole. A text is split into parts: blanks, calls, words
and definitions. There is at most one way to split it, and it is read without an error exactly
if there is one and no name is defined twice. What is read then is what the parts say. -/

namespace Brainfuck.Scan

/-- A piece outside of all definitions, or a definition with the pieces of its body. -/
inductive Part where
  | piece (content : Piece)
  | definition (name : Word) (gap : Option Blanks) (body : List Piece)

namespace Part

def chars : Part → List Char
  | piece content => content.chars
  | definition name gap body =>
    name.chars ++ Item.gapChars gap ++ '\x7b' :: body.flatMap Piece.chars ++ ['\x7d']

def items : Part → List Item
  | piece content => [.piece content]
  | definition name gap body => .opening name gap :: (body.map .piece ++ [.closing])

def definedName? : Part → Option String
  | piece _ => none
  | definition name _ _ => some name.text

/-- What a part that begins at an offset says. -/
def read (offset : Nat) : Part → Scan
  | piece content => ⟨content.tokens offset, .empty⟩
  | definition name gap body =>
    ⟨[], ⟨[⟨name.text, tokensOf (offset + (Item.opening name gap).chars.length) body, offset⟩]⟩⟩

end Part

/-- The text of parts one after another. -/
def textOf (parts : List Part) : List Char := parts.flatMap Part.chars

def definedNames (parts : List Part) : List String := parts.filterMap Part.definedName?

/-- What was read, and then more. -/
def append (first second : Scan) : Scan :=
  ⟨first.tokens ++ second.tokens, ⟨first.table.definitions ++ second.table.definitions⟩⟩

/-- What parts from an offset on say. -/
def readOff (offset : Nat) : List Part → Scan
  | [] => ⟨[], .empty⟩
  | part :: rest => (part.read offset).append (readOff (offset + part.chars.length) rest)

/-- The text is split into the parts. Runs of blanks and of word characters are as long as they
can be, and no word outside of all definitions has an opening brace, or blanks and an opening
brace, behind it. -/
structure Splits (text : List Char) (parts : List Part) : Prop where
  spelled : textOf parts = text
  maximal : Maximal (parts.flatMap Part.items)
  plain : ∀ before run after, parts = before ++ .piece (.word run) :: after →
    ((textOf after).dropWhile Text.isBlank).head? ≠ some '\x7b'

variable {state : State} {offset : Nat} {body inner : List Piece} {items others : List Item}
  {parts : List Part} {scan : Scan} {text : List Char}

theorem append_assoc (first second third : Scan) :
    (first.append second).append third = first.append (second.append third) := by
  simp [append]

/-- Parts behind others say what they say from the end of those on. -/
theorem readOff_append (offset : Nat) (first second : List Part) :
    readOff offset (first ++ second) =
      (readOff offset first).append (readOff (offset + (textOf first).length) second) := by
  induction first generalizing offset with
  | nil => simp [readOff, append, textOf, Macro.Table.empty]
  | cons part first ih =>
    simp only [List.cons_append, readOff, ih, append_assoc, textOf, List.flatMap_cons,
      List.length_append, Nat.add_assoc]

theorem definedNames_cons (part : Part) (parts : List Part) :
    definedNames (part :: parts) = part.definedName?.toList ++ definedNames parts := by
  rw [definedNames, List.filterMap_cons]
  cases part.definedName? <;> rfl

theorem definedNames_append (first second : List Part) :
    definedNames (first ++ second) = definedNames first ++ definedNames second :=
  List.filterMap_append

theorem spell_pieces (body : List Piece) :
    spell (body.map .piece) = body.flatMap Piece.chars := by
  rw [spell, List.flatMap_map]
  rfl

theorem spell_items (part : Part) : spell part.items = part.chars := by
  cases part with
  | piece content => simp [Part.items, Part.chars, Item.chars]
  | definition name gap body =>
    simp [Part.items, Part.chars, Item.chars, spell_pieces]

theorem spell_parts (parts : List Part) : spell (parts.flatMap Part.items) = textOf parts := by
  rw [spell, textOf, List.flatMap_assoc]
  exact List.flatMap_congr fun part _ => spell_items part

/-- The lexemes that an item is cut into. -/
def Item.lexemes : Item → List Lexeme
  | piece (.blanks run) => [.blank run.chars]
  | piece (.call name) => [.callMark, .word name.chars, .callMark]
  | piece (.word run) => [.word run.chars]
  | opening name none => [.word name.chars, .openingBrace]
  | opening name (some gap) => [.word name.chars, .blank gap.chars, .openingBrace]
  | closing => [.closingBrace]

theorem ofChars_spell (maximal : Maximal items) :
    Lexeme.ofChars (spell items) = items.flatMap Item.lexemes := by
  induction items with
  | nil => rfl
  | cons item items ih =>
    rw [spell_cons, List.flatMap_cons, ← ih maximal.tail]
    cases item with
    | piece content =>
      cases content with
      | blanks run =>
        exact Lexeme.cuts_blank.ofChars_append run
          (maximal.boundary run rfl fun _ _ => runsOn_of_blank)
      | call name => exact ofChars_call name _
      | word run =>
        exact Lexeme.cuts_word.ofChars_append run
          (maximal.boundary run rfl fun _ _ => runsOn_of_word)
    | opening name gap =>
      cases gap with
      | none => exact ofChars_opening_none name _
      | some gap => exact ofChars_opening_some name gap _
    | closing => exact ofChars_closing _

/-- Items do not begin with an opening brace, nor with one behind blanks. -/
theorem lexemes_ne_openingBrace (items : List Item) :
    (∀ rest, items.flatMap Item.lexemes ≠ .openingBrace :: rest) ∧
      ∀ gap rest, items.flatMap Item.lexemes ≠ .blank gap :: .openingBrace :: rest := by
  induction items with
  | nil => simp
  | cons item items ih =>
    cases item with
    | piece content => cases content <;> simp [Item.lexemes, ih.1]
    | opening name gap => cases gap <;> simp [Item.lexemes]
    | closing => simp [Item.lexemes]

theorem lexemes_cons_inj {item other : Item}
    (same : item.lexemes ++ items.flatMap Item.lexemes =
      other.lexemes ++ others.flatMap Item.lexemes) :
    item = other ∧ items.flatMap Item.lexemes = others.flatMap Item.lexemes := by
  have front := lexemes_ne_openingBrace items
  have front' := lexemes_ne_openingBrace others
  rcases item with (run | name | run) | ⟨name, _ | gap⟩ | _ <;>
    rcases other with (run' | name' | run') | ⟨name', _ | gap'⟩ | _ <;>
    simp_all [Item.lexemes]
  · exact front'.1 _ same.2.symm
  · exact front'.2 _ _ same.2.symm

theorem lexemes_injective (same : items.flatMap Item.lexemes = others.flatMap Item.lexemes) :
    items = others := by
  have lexemes_ne_nil (item : Item) : item.lexemes ≠ [] := by
    rcases item with (_ | _ | _) | ⟨_, _ | _⟩ | _ <;> simp [Item.lexemes]
  induction items generalizing others with
  | nil =>
    cases others with
    | nil => rfl
    | cons other others => simp [lexemes_ne_nil other] at same
  | cons item items ih =>
    cases others with
    | nil => simp [lexemes_ne_nil item] at same
    | cons other others =>
      obtain ⟨rfl, rest⟩ := lexemes_cons_inj same
      rw [ih rest]

/-- A text is spelled by at most one list of items whose runs are maximal. -/
theorem spell_injective (maximal : Maximal items) (maximal' : Maximal others)
    (same : spell items = spell others) : items = others := by
  apply lexemes_injective
  rw [← ofChars_spell maximal, ← ofChars_spell maximal', same]

theorem pieces_closing_inj {body others : List Piece} {items rest : List Item}
    (same : body.map Item.piece ++ .closing :: items = others.map .piece ++ .closing :: rest) :
    body = others ∧ items = rest := by
  induction body generalizing others with
  | nil => cases others <;> simp_all
  | cons content body ih =>
    cases others with
    | nil => simp at same
    | cons other others =>
      simp only [List.map_cons, List.cons_append, List.cons.injEq, Item.piece.injEq] at same
      obtain ⟨rfl, rest⟩ := ih same.2
      exact ⟨by rw [same.1], rest⟩

theorem part_items_inj {part other : Part} {items rest : List Item}
    (same : part.items ++ items = other.items ++ rest) : part = other ∧ items = rest := by
  cases part with
  | piece content =>
    cases other with
    | piece other => simpa [Part.items] using same
    | definition => simp [Part.items] at same
  | definition name gap body =>
    cases other with
    | piece => simp [Part.items] at same
    | definition name' gap' body' =>
      simp only [Part.items, List.cons_append, List.append_assoc, List.cons.injEq,
        Item.opening.injEq, List.nil_append] at same
      obtain ⟨⟨rfl, rfl⟩, same⟩ := same
      obtain ⟨rfl, rest⟩ := pieces_closing_inj same
      exact ⟨rfl, rest⟩

theorem items_injective {parts others : List Part}
    (same : parts.flatMap Part.items = others.flatMap Part.items) : parts = others := by
  have items_ne_nil (part : Part) : part.items ≠ [] := by cases part <;> simp [Part.items]
  induction parts generalizing others with
  | nil =>
    cases others with
    | nil => rfl
    | cons other others => simp [items_ne_nil other] at same
  | cons part parts ih =>
    cases others with
    | nil => simp [items_ne_nil part] at same
    | cons other others =>
      obtain ⟨rfl, rest⟩ := part_items_inj same
      rw [ih rest]

theorem Splits.unique {others : List Part} (splits : Splits text parts)
    (splits' : Splits text others) : parts = others := by
  apply items_injective
  apply spell_injective splits.maximal splits'.maximal
  rw [spell_parts, spell_parts, splits.spelled, splits'.spelled]

theorem Reads.exists_parts (reads : Reads state offset items scan) :
    (state.opening = none → ∃ parts : List Part, items = parts.flatMap Part.items) ∧
      ∀ opening, state.opening = some opening → ∃ (body : List Piece) (parts : List Part),
        items = body.map .piece ++ .closing :: parts.flatMap Part.items := by
  induction reads with
  | done outside => exact ⟨fun _ => ⟨[], rfl⟩, fun _ inside => by simp [outside] at inside⟩
  | @piece state offset content items scan _ ih =>
    rw [State.opening_emit] at ih
    constructor
    · intro outside
      obtain ⟨parts, rfl⟩ := ih.1 (by simp [outside])
      exact ⟨.piece content :: parts, rfl⟩
    · intro opening inside
      obtain ⟨body, parts, rfl⟩ := ih.2 _ (by rw [inside, Option.map_some])
      exact ⟨content :: body, parts, rfl⟩
  | @opening state opened offset name gap items scan outside fresh _ ih =>
    obtain ⟨-, rfl⟩ := State.define_eq_ok_iff.mp fresh
    obtain ⟨body, parts, rfl⟩ := ih.2 _ rfl
    refine ⟨fun _ => ⟨.definition name gap body :: parts, ?_⟩, fun _ inside => ?_⟩
    · simp [Part.items]
    · simp [outside] at inside
  | @closing state opening offset items scan inside _ ih =>
    obtain ⟨parts, rfl⟩ := ih.1 rfl
    exact ⟨fun outside => by simp [inside] at outside, fun _ _ => ⟨[], parts, rfl⟩⟩

/-- More has been read, outside of all definitions. -/
def State.add (state : State) (more : Scan) : State :=
  { state with
    tokens := state.tokens ++ more.tokens
    definitions := state.definitions ++ more.table.definitions }

def State.names (state : State) : List String := state.definitions.toList.map (·.name)

theorem State.names_add (state : State) (more : Scan) :
    (state.add more).names = state.names ++ more.table.names := by
  simp [State.names, State.add, Macro.Table.names]

theorem Part.names_read (part : Part) (offset : Nat) :
    (part.read offset).table.names = part.definedName?.toList := by
  cases part <;> rfl

theorem reads_opening_iff {name : Word} {gap : Option Blanks} (outside : state.opening = none) :
    Reads state offset (.opening name gap :: items) scan ↔
      name.text ∉ state.names ∧ Reads { state with opening := some { name := name.text, offset } }
        (offset + (Item.opening name gap).chars.length) items scan := by
  constructor
  · intro reads
    cases reads with
    | opening _ fresh rest =>
      obtain ⟨absent, rfl⟩ := State.define_eq_ok_iff.mp fresh
      exact ⟨absent, rest⟩
  · rintro ⟨absent, rest⟩
    exact .opening outside (State.define_eq_ok_iff.mpr ⟨absent, rfl⟩) rest

theorem reads_closing_iff {opening : Opening} (inside : state.opening = some opening) :
    Reads state offset (.closing :: items) scan ↔
      Reads (state.close opening) (offset + 1) items scan := by
  constructor
  · intro reads
    cases reads with
    | closing inside' rest =>
      obtain rfl : opening = _ := Option.some.inj (inside.symm.trans inside')
      exact rest
  · exact .closing inside

/-- A part is read if its name is new, and adds what it says. -/
theorem reads_part_iff (part : Part) (outside : state.opening = none) :
    Reads state offset (part.items ++ items) scan ↔
      (∀ name ∈ part.definedName?, name ∉ state.names) ∧
        Reads (state.add (part.read offset)) (offset + part.chars.length) items scan := by
  cases part with
  | piece content =>
    have same : state.emit (content.tokens offset) =
        state.add ((Part.piece content).read offset) := by
      simp [State.emit, State.add, outside, Part.read, Macro.Table.empty]
    rw [← same]
    constructor
    · intro reads
      cases reads with
      | piece rest => exact ⟨by simp [Part.definedName?], rest⟩
    · exact fun reads => .piece reads.2
  | definition name gap body =>
    have items_eq : (Part.definition name gap body).items ++ items =
        .opening name gap :: (body.map .piece ++ .closing :: items) := by
      simp [Part.items]
    have length_eq : offset + (Part.definition name gap body).chars.length =
        offset + (Item.opening name gap).chars.length + (spell (body.map .piece)).length + 1 := by
      simp [Part.chars, Item.chars, spell_pieces]
      omega
    rw [items_eq, reads_opening_iff outside, reads_pieces_iff, reads_closing_iff rfl, length_eq]
    simp [State.close, State.emit, State.add, Part.read, Part.definedName?, outside]

theorem reads_parts_iff (outside : state.opening = none) :
    Reads state offset (parts.flatMap Part.items) scan ↔
      (definedNames parts).Nodup ∧ (definedNames parts).Disjoint state.names ∧
        scan = append ⟨state.tokens.toList, ⟨state.definitions.toList⟩⟩
          (readOff offset parts) := by
  induction parts generalizing state offset with
  | nil =>
    have done : append ⟨state.tokens.toList, ⟨state.definitions.toList⟩⟩ (readOff offset []) =
        ⟨state.tokens.toList, ⟨state.definitions.toList⟩⟩ := by
      simp [append, readOff, Macro.Table.empty]
    rw [done]
    constructor
    · intro reads
      cases reads
      exact ⟨.nil, List.disjoint_nil_left _, rfl⟩
    · rintro ⟨-, -, rfl⟩
      exact .done outside
  | cons part parts ih =>
    have still : (state.add (part.read offset)).opening = none := outside
    have said : append ⟨(state.add (part.read offset)).tokens.toList,
          ⟨(state.add (part.read offset)).definitions.toList⟩⟩
          (readOff (offset + part.chars.length) parts) =
        append ⟨state.tokens.toList, ⟨state.definitions.toList⟩⟩
          (readOff offset (part :: parts)) := by
      simp [append, State.add, readOff]
    rw [List.flatMap_cons, reads_part_iff part outside, ih still, said, definedNames_cons,
      State.names_add, Part.names_read, List.disjoint_append_left, List.disjoint_append_right]
    cases part.definedName? with
    | none => simp
    | some name =>
      simp only [Option.toList_some, List.singleton_append, List.nodup_cons,
        List.disjoint_singleton, List.singleton_disjoint, Option.mem_def, Option.some.injEq,
        forall_eq']
      tauto

/-- A text is read if and only if it is split into parts with distinct names, and what is read
is what they say. -/
theorem ofSource_eq_ok_iff_splits {source : String} :
    ofSource source = .ok scan ↔ ∃ parts, Splits source.toList parts ∧
      (definedNames parts).Nodup ∧ scan = readOff 0 parts := by
  constructor
  · intro read
    obtain ⟨items, same, maximal, reads⟩ := exists_reads read
    obtain ⟨parts, rfl⟩ := reads.exists_parts.1 rfl
    obtain ⟨distinct, -, rfl⟩ := (reads_parts_iff rfl).mp reads
    refine ⟨parts, ⟨by rw [← spell_parts, same], maximal, ?_⟩, distinct, by simp [append]⟩
    intro before run after split
    rw [← spell_parts]
    exact head_dropWhile_spell _
  · rintro ⟨parts, splits, distinct, rfl⟩
    refine ofSource_eq_ok_iff.mpr ⟨parts.flatMap Part.items, ?_, splits.maximal.separated, ?_⟩
    · rw [spell_parts, splits.spelled]
    · exact (reads_parts_iff rfl).mpr ⟨distinct, by simp [State.names], by simp [append]⟩

/-- A text is read if and only if it is split into parts with distinct names. The parts are the
only ones, and what is read is what they say. -/
structure FollowsGrammar (source : String) : Prop where
  accepts : (∃ scan, ofSource source = .ok scan) ↔
    ∃ parts, Splits source.toList parts ∧ (definedNames parts).Nodup
  unique : ∀ parts others, Splits source.toList parts → Splits source.toList others →
    parts = others
  result : ∀ parts, Splits source.toList parts → (definedNames parts).Nodup →
    ofSource source = .ok (readOff 0 parts)

/-- Every text is read by the grammar. -/
theorem ofSource_follows_grammar (source : String) : FollowsGrammar source where
  accepts := by simp [ofSource_eq_ok_iff_splits]
  unique _ _ splits splits' := splits.unique splits'
  result parts splits distinct := ofSource_eq_ok_iff_splits.mpr ⟨parts, splits, distinct, rfl⟩

end Brainfuck.Scan
