import Brainfuck.Proofs.Scan.Grammar

namespace Brainfuck

/-- What can stand between call marks or before an opening brace. -/
def IsName (name : String) : Prop :=
  name ≠ "" ∧ ∀ char ∈ name.toList, isWordChar char = true

instance (name : String) : Decidable (IsName name) :=
  decidable_of_iff (name ≠ "" ∧ name.toList.all isWordChar = true) (by simp [IsName])

theorem IsName.exists_word {name : String} (valid : IsName name) :
    ∃ word : Word, word.text = name :=
  ⟨⟨name.toList, by simpa using valid.1, valid.2⟩, String.ofList_toList⟩

/-- Each of the things, put at the place where its text begins if the texts are written one after
another from a place on. -/
def placeEach {α : Type} (text : α → String) (put : Nat → α → α) (place : Nat) (things : List α) :
    List α :=
  things.mapIdx fun index thing =>
    put (place + (String.join ((things.take index).map text)).length) thing

theorem placeEach_cons {α : Type} (text : α → String) (put : Nat → α → α) (place : Nat) (thing : α)
    (things : List α) :
    placeEach text put place (thing :: things) =
      put place thing :: placeEach text put (place + (text thing).length) things := by
  simp [placeEach, List.mapIdx_cons, Nat.add_assoc]

namespace Token

/-- A token that says all that it is by its text: a symbol, or a call of a name. -/
inductive Writable : Token → Prop where
  | symbol (symbol : Symbol) (offset : Int) : Writable (.ofSymbol symbol offset)
  | call {name : String} (valid : IsName name) (offset : Int) : Writable (.callOf name offset)

def putAt (place : Nat) (token : Token) : Token := { token with offset := place }

/-- The tokens where they stand if they are written from a place on. -/
def placed (place : Nat) (tokens : List Token) : List Token := placeEach text putAt place tokens

theorem format_cons (token : Token) (tokens : List Token) :
    format (token :: tokens) = token.text ++ format tokens := String.join_cons

theorem placed_cons (place : Nat) (token : Token) (tokens : List Token) :
    placed place (token :: tokens) =
      token.putAt place :: placed (place + token.text.length) tokens :=
  placeEach_cons text putAt place token tokens

theorem text_ofSymbol (symbol : Symbol) (offset : Int) :
    (ofSymbol symbol offset).text = symbol.toChar.toString := rfl

end Token

namespace Macro.Definition

structure Writable (definition : Definition) : Prop where
  name : IsName definition.name
  body : ∀ token ∈ definition.body, token.Writable

def text (definition : Definition) : String :=
  definition.name ++ "\x7b" ++ Token.format definition.body ++ "\x7d"

/-- The definition where it stands if it is written from a place on, its body behind the name and
the brace. -/
def putAt (place : Nat) (definition : Definition) : Definition :=
  { definition with
    body := Token.placed (place + definition.name.length + 1) definition.body
    offset := place }

end Macro.Definition

namespace Scan

structure Writable (scan : Scan) : Prop where
  tokens : ∀ token ∈ scan.tokens, token.Writable
  definitions : ∀ definition ∈ scan.table.definitions, definition.Writable
  distinct : scan.table.names.Nodup

def definitionsText (scan : Scan) : String :=
  String.join (scan.table.definitions.map Macro.Definition.text)

/-- The definitions in order, and then the tokens. -/
def text (scan : Scan) : String := scan.definitionsText ++ Token.format scan.tokens

/-- The same tokens and definitions where they stand in the text. -/
def placed (scan : Scan) : Scan :=
  ⟨Token.placed scan.definitionsText.length scan.tokens,
    ⟨placeEach Macro.Definition.text Macro.Definition.putAt 0 scan.table.definitions⟩⟩

variable {tokens : List Token} {definitions : List Macro.Definition}
  {definition : Macro.Definition} {scan : Scan} {items : List Item}

/-- Pieces that are written as the tokens are, and say them wherever they stand. -/
structure Writes (pieces : List Piece) (tokens : List Token) : Prop where
  spelled : spell (pieces.map .piece) = (Token.format tokens).toList
  separated : Separated (pieces.map .piece)
  said : ∀ place, tokensOf place pieces = Token.placed place tokens

namespace Writes

theorem nil : Writes [] [] where
  spelled := rfl
  separated := .nil
  said _ := rfl

theorem call {pieces : List Piece} (writes : Writes pieces tokens) (name : Word) (offset : Int) :
    Writes (.call name :: pieces) (.callOf name.text offset :: tokens) where
  spelled := by
    simp [writes.spelled, Token.format_cons, Item.chars, Piece.chars, Token.text, Token.callOf,
      Run.text]
  separated := writes.separated.cons_of_not_endsWord rfl
  said place := by
    have length : (Token.callOf name.text offset).text.length = (Piece.call name).chars.length := by
      simp [Piece.chars, Token.text, Token.callOf, Run.text, Nat.add_comm 1]
    rw [tokensOf, writes.said, Token.placed_cons, length]
    rfl

/-- A symbol is written as the first character of a word: of the word behind it, if there is one,
and else of a new one. -/
theorem symbol {pieces : List Piece} (writes : Writes pieces tokens) (symbol : Symbol)
    (offset : Int) : ∃ pieces, Writes pieces (.ofSymbol symbol offset :: tokens) := by
  have format : (Token.format (.ofSymbol symbol offset :: tokens)).toList =
      symbol.toChar :: (Token.format tokens).toList := by
    rw [Token.format_cons, String.toList_append, Token.text_ofSymbol]
    simp
  have placed (place : Nat) : Token.placed place (.ofSymbol symbol offset :: tokens) =
      .ofSymbol symbol place :: Token.placed (place + 1) tokens := by
    rw [Token.placed_cons, Token.text_ofSymbol]
    simp [Token.putAt, Token.ofSymbol]
  have word (run : List Char) (place : Nat) : wordTokens place (symbol.toChar :: run) =
      .ofSymbol symbol place :: wordTokens (place + 1) run := by
    rw [wordTokens_cons, Symbol.ofChar?_toChar]
    rfl
  obtain ⟨spelled, separated, said⟩ := writes
  by_cases begins : ∃ run rest, pieces = .word run :: rest
  · obtain ⟨run, rest, rfl⟩ := begins
    refine ⟨.word (run.cons symbol.toChar symbol.isWordChar_toChar) :: rest, ?_, ?_, ?_⟩
    · rw [format, ← spelled]
      rfl
    · exact List.isChain_cons.mpr (List.isChain_cons.mp separated)
    · intro place
      rw [placed, ← said]
      simp [tokensOf, Piece.tokens, Piece.chars, Run.cons, word, Nat.add_assoc, Nat.add_comm 1]
  · have alone : ∀ char ∈ [symbol.toChar], isWordChar char = true :=
      List.forall_mem_singleton.mpr symbol.isWordChar_toChar
    refine ⟨.word ⟨[symbol.toChar], List.cons_ne_nil _ _, alone⟩ :: pieces, ?_, ?_, ?_⟩
    · rw [format, ← spelled]
      rfl
    · refine List.isChain_cons.mpr ⟨fun next first _ => ?_, separated⟩
      cases pieces with
      | nil => cases first
      | cons piece rest =>
        cases first
        cases piece with
        | word run => exact absurd ⟨run, rest, rfl⟩ begins
        | _ => rfl
    · intro place
      rw [placed, ← said, tokensOf, Piece.tokens, word]
      rfl

end Writes

theorem exists_writes (writable : ∀ token ∈ tokens, token.Writable) :
    ∃ pieces, Writes pieces tokens := by
  induction tokens with
  | nil => exact ⟨[], .nil⟩
  | cons token tokens ih =>
    obtain ⟨first, later⟩ := List.forall_mem_cons.mp writable
    obtain ⟨pieces, writes⟩ := ih later
    cases first with
    | symbol symbol offset => exact writes.symbol symbol offset
    | call valid offset =>
      obtain ⟨name, rfl⟩ := valid.exists_word
      exact ⟨_, writes.call name offset⟩

/-- Parts that are written as the definitions are, and say them wherever they stand. -/
structure WritesAll (parts : List Part) (definitions : List Macro.Definition) : Prop where
  spelled : textOf parts = (String.join (definitions.map Macro.Definition.text)).toList
  separated : ∀ {items}, Separated items → Separated (parts.flatMap Part.items ++ items)
  names : definedNames parts = definitions.map (·.name)
  said : ∀ place, readOff place parts =
    ⟨[], ⟨placeEach Macro.Definition.text Macro.Definition.putAt place definitions⟩⟩

theorem WritesAll.cons {parts : List Part} {name : Word} {body : List Piece}
    (all : WritesAll parts definitions) (named : name.text = definition.name)
    (writes : Writes body definition.body) :
    WritesAll (.definition name none body :: parts) (definition :: definitions) := by
  have chars : (Part.definition name none body).chars = definition.text.toList := by
    have inside := writes.spelled
    rw [spell_pieces] at inside
    simp [Part.chars, Item.gapChars, inside, Macro.Definition.text, ← named, Run.text]
  have read (place : Nat) : (Part.definition name none body).read place =
      ⟨[], ⟨[definition.putAt place]⟩⟩ := by
    have length : (Item.opening name none).chars.length = definition.name.length + 1 := by
      simp [Item.chars, Item.gapChars, ← named, Run.text]
    rw [Part.read, writes.said, length, named]
    rfl
  refine ⟨?_, fun separated => ?_, ?_, fun place => ?_⟩
  · rw [textOf, List.flatMap_cons, ← textOf, all.spelled, chars]
    simp
  · have behind : Separated (.closing :: (parts.flatMap Part.items ++ _)) :=
      (all.separated separated).cons_of_not_endsWord rfl
    have inside := writes.separated.append behind (by rintro _ ⟨⟩; rfl)
    have whole : Separated (.opening name none :: _) := inside.cons_of_not_endsWord rfl
    simpa [Part.items] using whole
  · simp [definedNames, Part.definedName?, named, ← all.names]
  · rw [readOff, read, all.said, chars, placeEach_cons]
    rfl

theorem exists_writesAll (writable : ∀ definition ∈ definitions, definition.Writable) :
    ∃ parts, WritesAll parts definitions := by
  induction definitions with
  | nil => exact ⟨[], rfl, fun separated => separated, rfl, fun _ => rfl⟩
  | cons definition definitions ih =>
    obtain ⟨first, later⟩ := List.forall_mem_cons.mp writable
    obtain ⟨parts, all⟩ := ih later
    obtain ⟨name, named⟩ := first.name.exists_word
    obtain ⟨body, writes⟩ := exists_writes first.body
    exact ⟨_, all.cons named writes⟩

/-- Pieces outside of all definitions, as parts. -/
def partsOf (pieces : List Piece) : List Part := pieces.map .piece

theorem items_partsOf (pieces : List Piece) :
    (partsOf pieces).flatMap Part.items = pieces.map .piece := by
  rw [partsOf, List.flatMap_map]
  exact List.map_eq_flatMap.symm

theorem definedNames_partsOf (pieces : List Piece) : definedNames (partsOf pieces) = [] := by
  simp [definedNames, partsOf, Part.definedName?]

theorem readOff_partsOf (place : Nat) (pieces : List Piece) :
    readOff place (partsOf pieces) = ⟨tokensOf place pieces, .empty⟩ := by
  induction pieces generalizing place with
  | nil => rfl
  | cons piece pieces ih =>
    rw [partsOf, List.map_cons, readOff, ← partsOf, ih]
    rfl

/-- What was written is read, and stands where it was written. -/
theorem ofSource_text (writable : scan.Writable) : ofSource scan.text = .ok scan.placed := by
  obtain ⟨parts, all⟩ := exists_writesAll writable.definitions
  obtain ⟨pieces, writes⟩ := exists_writes writable.tokens
  have front : (textOf parts).length = scan.definitionsText.length := by
    rw [all.spelled]
    exact String.length_toList
  have items : (parts ++ partsOf pieces).flatMap Part.items =
      parts.flatMap Part.items ++ pieces.map .piece := by
    rw [List.flatMap_append, items_partsOf]
  refine ofSource_eq_ok_iff.mpr ⟨(parts ++ partsOf pieces).flatMap Part.items, ?_, ?_,
    (reads_parts_iff rfl).mpr ⟨?_, List.disjoint_nil_right _, ?_⟩⟩
  · rw [items, spell_append, spell_parts, all.spelled, writes.spelled, Scan.text,
      String.toList_append]
    rfl
  · rw [items]
    exact all.separated writes.separated
  · rw [definedNames_append, definedNames_partsOf, List.append_nil, all.names]
    exact writable.distinct
  · rw [readOff_append, all.said, readOff_partsOf, writes.said, Nat.zero_add, front]
    simp [append, placed, Macro.Table.empty]

/-- Names that are symbols, and an empty body. -/
theorem ofSource_text_symbols :
    let scan : Scan := ⟨[.ofSymbol .loopStart 0, .callOf "+" 0, .ofSymbol .loopEnd 0],
      ⟨[⟨"+", [.callOf "<" 0, .ofSymbol .output 0, .ofSymbol .input 0], 0⟩, ⟨"<", [], 0⟩]⟩⟩
    scan.Writable ∧ scan.text = "+\x7b@<@.,\x7d<\x7b\x7d[@+@]" ∧
      ofSource "+\x7b@<@.,\x7d<\x7b\x7d[@+@]" = .ok
        ⟨[.ofSymbol .loopStart 11, .callOf "+" 12, .ofSymbol .loopEnd 15],
          ⟨[⟨"+", [.callOf "<" 2, .ofSymbol .output 5, .ofSymbol .input 6], 0⟩,
            ⟨"<", [], 8⟩]⟩⟩ := by
  intro scan
  have writable : scan.Writable := by
    refine ⟨?_, ?_, by decide⟩
    · simp only [scan, List.forall_mem_cons]
      exact ⟨.symbol _ _, .call (by decide) _, .symbol _ _, by simp⟩
    · simp only [scan, List.forall_mem_cons]
      refine ⟨⟨by decide, ?_⟩, ⟨by decide, by simp⟩, by simp⟩
      simp only [List.forall_mem_cons]
      exact ⟨.call (by decide) _, .symbol _ _, .symbol _ _, by simp⟩
  have written : scan.text = "+\x7b@<@.,\x7d<\x7b\x7d[@+@]" := rfl
  have read := ofSource_text writable
  rw [written] at read
  exact ⟨writable, written, read.trans (congrArg Except.ok (by decide))⟩

end Scan
end Brainfuck
