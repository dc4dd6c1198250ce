import Mathlib.Data.List.Permutation
import Brainfuck.Proofs.Scan.Grammar

/-! Where the characters of a text go. Each token that is read stands in the text at its offset,
and each symbol of the text is used once: for a token, in the name of a call, or in the name of
a definition. -/

namespace Brainfuck

/-- A token stands in a text at its offset: a symbol as its character, a call as its name between
call marks. -/
inductive Token.StandsIn (text : List Char) : Token → Prop where
  | symbol {symbol : Symbol} {place : Nat} (found : text[place]? = some symbol.toChar) :
      StandsIn text (.ofSymbol symbol place)
  | call {name : String} {place : Nat}
      (found : callMark :: name.toList ++ [callMark] <+: text.drop place) :
      StandsIn text (.callOf name place)

/-- The token is a call and the index is that of a character of its name. -/
def Token.namesOver (token : Token) (index : Nat) : Prop :=
  token.isCall = true ∧ token.offset < index ∧ index ≤ token.offset + (token.name.getD "").length

namespace Macro.Definition

/-- The index is that of a character of the name. -/
def namesOver (definition : Definition) (index : Nat) : Prop :=
  definition.offset ≤ index ∧ index < definition.offset + definition.name.length

/-- A definition stands in a text at its offset: its name, blanks, and braces without further
braces between them, where all tokens of its body have their offsets. -/
def StandsIn (text : List Char) (definition : Definition) : Prop :=
  ∃ (place : Nat) (gap inner : List Char), definition.offset = place ∧
    definition.name.toList ++ gap ++ '\x7b' :: inner ++ ['\x7d'] <+: text.drop place ∧
    (∀ char ∈ gap, Text.isBlank char = true) ∧ '\x7b' ∉ inner ∧ '\x7d' ∉ inner ∧
    ∀ token ∈ definition.body,
      (place + definition.name.length + gap.length : Nat) < token.offset ∧
        token.offset < (place + definition.name.length + gap.length + 1 + inner.length : Nat)

end Macro.Definition

instance (token : Token) (index : Nat) : Decidable (token.namesOver index) :=
  inferInstanceAs (Decidable (_ ∧ _))

instance (definition : Macro.Definition) (index : Nat) :
    Decidable (definition.namesOver index) :=
  inferInstanceAs (Decidable (_ ∧ _))

namespace Scan

/-- The tokens outside all definitions, and those of each body. -/
def lists (scan : Scan) : List (List Token) :=
  scan.tokens :: scan.table.definitions.map (·.body)

/-- How often an index of the text is used: as the offset of a token, inside the name of a call,
and inside the name of a definition. -/
def uses (scan : Scan) (index : Nat) : Nat :=
  scan.lists.flatten.countP (fun token => token.offset = (index : Int)) +
    scan.lists.flatten.countP (fun token => token.namesOver index) +
    scan.table.definitions.countP (fun definition => definition.namesOver index)

/-- What is read between two indexes of a text accounts for the symbols between them. -/
structure Accounts (text : List Char) (start stop : Nat) (scan : Scan) : Prop where
  ordered : start ≤ stop
  ascending : ∀ tokens ∈ scan.lists, tokens.Pairwise (·.offset < ·.offset)
  within : ∀ token, scan.Holds token → start ≤ token.offset ∧ token.offset < stop
  stands : ∀ token, scan.Holds token → token.StandsIn text
  braced : ∀ definition ∈ scan.table.definitions, definition.StandsIn text
  once : ∀ (index : Nat) (symbol : Symbol), start ≤ index → index < stop →
    text[index]? = some symbol.toChar → scan.uses index = 1
  elsewhere : ∀ index, index < start ∨ stop ≤ index → scan.uses index = 0

variable {text chars first second : List Char} {start middle stop index : Nat} {char : Char}
  {scan other : Scan} {token : Token}

/-- Of two runs of characters the second stands behind the first. -/
theorem append_prefix_drop_iff :
    first ++ second <+: text.drop start ↔
      first <+: text.drop start ∧ second <+: text.drop (start + first.length) := by
  constructor
  · rintro ⟨rest, same⟩
    refine ⟨⟨second ++ rest, by rw [← same, List.append_assoc]⟩, rest, ?_⟩
    rw [← List.drop_drop, ← same, List.append_assoc, List.drop_left]
  · rintro ⟨⟨behind, same⟩, rest, same'⟩
    rw [← List.drop_drop, ← same, List.drop_left] at same'
    exact ⟨rest, by rw [← same, ← same', List.append_assoc]⟩

theorem mem_of_prefix_drop (located : chars <+: text.drop start) (after : start ≤ index)
    (before : index < start + chars.length) (found : text[index]? = some char) : char ∈ chars := by
  obtain ⟨rest, same⟩ := located
  have place : text[index]? = (text.drop start)[index - start]? := by
    rw [List.getElem?_drop]
    congr 1
    omega
  rw [place, ← same, List.getElem?_append_left (by omega)] at found
  exact List.mem_of_getElem? found

/-- No symbol is found where characters stand of which no words are made. -/
theorem ne_toChar_of_prefix_drop (located : chars <+: text.drop start)
    (others : ∀ char ∈ chars, isWordChar char = false) (after : start ≤ index)
    (before : index < start + chars.length) (symbol : Symbol) :
    text[index]? ≠ some symbol.toChar := by
  intro found
  have other := others _ (mem_of_prefix_drop located after before found)
  rw [symbol.isWordChar_toChar] at other
  cases other

theorem uses_append (scan other : Scan) (index : Nat) :
    (scan.append other).uses index = scan.uses index + other.uses index := by
  simp only [uses, lists, append, List.map_append, List.flatten_cons, List.flatten_append,
    List.countP_append]
  omega

theorem uses_singleton (token : Token) (index : Nat) :
    uses ⟨[token], .empty⟩ index =
      (if token.offset = index then 1 else 0) + if token.namesOver index then 1 else 0 := by
  simp [uses, lists, Macro.Table.empty, List.countP_cons]

theorem uses_definition (definition : Macro.Definition) (index : Nat) :
    uses ⟨[], ⟨[definition]⟩⟩ index =
      uses ⟨definition.body, .empty⟩ index + if definition.namesOver index then 1 else 0 := by
  simp [uses, lists, Macro.Table.empty, List.countP_cons]

theorem namesOver_iff {definition : Macro.Definition} {place : Nat}
    (located : definition.offset = place) :
    definition.namesOver index ↔ place ≤ index ∧ index < place + definition.name.length := by
  rw [Macro.Definition.namesOver, located]
  omega

theorem gapChars_blank (gap : Option Blanks) :
    ∀ char ∈ Item.gapChars gap, Text.isBlank char = true := by
  cases gap with
  | none => simp [Item.gapChars]
  | some run => exact run.passes

theorem not_mem_pieces (body : List Piece) (filled : Text.isBlank char = false)
    (apart : isWordChar char = false) (other : char ≠ callMark) :
    char ∉ body.flatMap Piece.chars := by
  intro member
  obtain ⟨content, -, member⟩ := List.mem_flatMap.mp member
  cases content with
  | blanks run => simp [run.passes char member] at filled
  | call name =>
    have inside : char ∈ name.chars := by simpa [Piece.chars, other] using member
    simp [name.passes char inside] at apart
  | word run => simp [run.passes char member] at apart

theorem holds_append : (scan.append other).Holds token ↔ scan.Holds token ∨ other.Holds token := by
  simp only [Holds, append, List.mem_append]
  grind

theorem holds_tokens {tokens : List Token} : Holds ⟨tokens, .empty⟩ token ↔ token ∈ tokens := by
  simp [Holds, Macro.Table.empty]

namespace Accounts

theorem append (accounts : Accounts text start middle scan)
    (accounts' : Accounts text middle stop other) :
    Accounts text start stop (scan.append other) where
  ordered := accounts.ordered.trans accounts'.ordered
  ascending tokens member := by
    rcases List.mem_cons.mp member with rfl | body
    · refine List.pairwise_append.mpr ⟨accounts.ascending _ List.mem_cons_self,
        accounts'.ascending _ List.mem_cons_self, fun early held late held' => ?_⟩
      have before := accounts.within early (.inl held)
      have behind := accounts'.within late (.inl held')
      omega
    · rw [Scan.append, List.map_append] at body
      rcases List.mem_append.mp body with body | body
      · exact accounts.ascending tokens (List.mem_cons_of_mem _ body)
      · exact accounts'.ascending tokens (List.mem_cons_of_mem _ body)
  within token held := by
    have wide := accounts.ordered
    have wide' := accounts'.ordered
    rcases holds_append.mp held with held | held
    · have place := accounts.within token held
      omega
    · have place := accounts'.within token held
      omega
  stands token held := (holds_append.mp held).elim (accounts.stands token) (accounts'.stands token)
  braced definition member :=
    (List.mem_append.mp member).elim (accounts.braced definition) (accounts'.braced definition)
  once index symbol after before found := by
    rw [uses_append]
    by_cases early : index < middle
    · rw [accounts.once index symbol after early found, accounts'.elsewhere index (.inl early)]
    · rw [Nat.not_lt] at early
      rw [accounts.elsewhere index (.inr early), accounts'.once index symbol early before found]
  elsewhere index outside := by
    have wide := accounts.ordered
    have wide' := accounts'.ordered
    rw [uses_append, accounts.elsewhere index (by omega), accounts'.elsewhere index (by omega)]

/-- Where no symbol stands, nothing has to be read. -/
theorem nothing (ordered : start ≤ stop) (plain : ∀ (index : Nat) (symbol : Symbol),
      start ≤ index → index < stop → text[index]? ≠ some symbol.toChar) :
    Accounts text start stop ⟨[], .empty⟩ where
  ordered := ordered
  ascending := by simp [lists, Macro.Table.empty]
  within := by simp [holds_tokens]
  stands := by simp [holds_tokens]
  braced := by simp [Macro.Table.empty]
  once index symbol after before found := absurd found (plain index symbol after before)
  elsewhere _ _ := rfl

theorem empty : Accounts text start start ⟨[], .empty⟩ :=
  .nothing (Nat.le_refl start) fun _ _ after before => absurd after (Nat.not_le.mpr before)

theorem singleton (stands : token.StandsIn text)
    (within : start ≤ token.offset ∧ token.offset < stop)
    (once : ∀ (index : Nat) (symbol : Symbol), start ≤ index → index < stop →
      text[index]? = some symbol.toChar → uses ⟨[token], .empty⟩ index = 1)
    (elsewhere : ∀ index, index < start ∨ stop ≤ index → uses ⟨[token], .empty⟩ index = 0) :
    Accounts text start stop ⟨[token], .empty⟩ where
  ordered := by omega
  ascending := by simp [lists, Macro.Table.empty]
  within := by simpa [holds_tokens] using within
  stands := by simpa [holds_tokens] using stands
  braced := by simp [Macro.Table.empty]
  once := once
  elsewhere := elsewhere

theorem character (found : text[start]? = some char) :
    Accounts text start (start + 1)
      ⟨((Symbol.ofChar? char).map (Token.ofSymbol · start)).toList, .empty⟩ := by
  cases known : Symbol.ofChar? char with
  | none =>
    refine .nothing (Nat.le_succ start) fun index symbol after before found' => ?_
    obtain rfl : index = start := by omega
    rw [found, Option.some.injEq] at found'
    simp [found'] at known
  | some symbol =>
    rw [← Symbol.toChar_of_ofChar? known] at found
    have alone (index : Nat) : uses ⟨[.ofSymbol symbol start], .empty⟩ index =
        if start = index then 1 else 0 := by
      have place : (Token.ofSymbol symbol start).offset = index ↔ start = index := Int.ofNat_inj
      have plain : ¬ (Token.ofSymbol symbol start).namesOver index := fun inside => nomatch inside.1
      rw [uses_singleton, if_neg plain]
      simp only [place, Nat.add_zero]
    refine .singleton (.symbol found) ?_ (fun index _ after before _ => ?_) fun index outside => ?_
    · simp only [Token.ofSymbol]
      omega
    · rw [alone, if_pos (by omega)]
    · rw [alone, if_neg (by omega)]

theorem word {run : List Char} (located : run <+: text.drop start) :
    Accounts text start (start + run.length) ⟨wordTokens start run, .empty⟩ := by
  induction run generalizing start with
  | nil => exact .empty
  | cons char run ih =>
    obtain ⟨here, rest⟩ := append_prefix_drop_iff.mp (List.singleton_append ▸ located)
    have found : text[start]? = some char := by
      obtain ⟨behind, same⟩ := here
      rw [← List.head?_drop, ← same]
      rfl
    rw [wordTokens_cons, List.length_cons, Nat.add_comm run.length, ← Nat.add_assoc]
    exact (Accounts.character found).append (ih rest)

theorem call {name : Word} (located : (Piece.call name).chars <+: text.drop start) :
    Accounts text start (start + (Piece.call name).chars.length)
      ⟨[.callOf name.text start], .empty⟩ := by
  have length : (Piece.call name).chars.length = name.chars.length + 2 := by simp [Piece.chars]
  obtain ⟨front, last⟩ := append_prefix_drop_iff.mp located
  obtain ⟨first, -⟩ := append_prefix_drop_iff.mp (List.singleton_append ▸ front)
  have mark : ∀ char ∈ [callMark], isWordChar char = false :=
    List.forall_mem_singleton.mpr (by decide)
  have uses_eq (index : Nat) : uses ⟨[.callOf name.text start], .empty⟩ index =
      if start ≤ index ∧ index ≤ start + name.chars.length then 1 else 0 := by
    simp only [uses_singleton, Token.namesOver, Token.callOf, Token.isCall, Run.text,
      Option.getD_some, String.length_ofList, beq_self_eq_true, true_and]
    split <;> split <;> split <;> omega
  rw [length]
  refine .singleton (.call (by simpa [Run.text, Piece.chars] using located)) ?_
    (fun index symbol after before found => ?_) fun index outside => ?_
  · simp only [Token.callOf]
    omega
  · have behind : start < index := by
      by_contra here
      exact ne_toChar_of_prefix_drop first mark after (by simp; omega) symbol found
    have ahead : index ≤ start + name.chars.length := by
      by_contra here
      exact ne_toChar_of_prefix_drop last mark (by simp; omega) (by simp; omega) symbol found
    rw [uses_eq, if_pos (by omega)]
  · rw [uses_eq, if_neg (by omega)]

theorem piece {content : Piece} (located : content.chars <+: text.drop start) :
    Accounts text start (start + content.chars.length) ⟨content.tokens start, .empty⟩ := by
  cases content with
  | blanks run =>
    exact .nothing (Nat.le_add_right _ _) fun index symbol after before =>
      ne_toChar_of_prefix_drop located
        (fun char member => isWordChar_eq_false_of_isBlank (run.passes char member)) after before
        symbol
  | call name => exact .call located
  | word run => exact .word located

theorem pieces {body : List Piece} (located : body.flatMap Piece.chars <+: text.drop start) :
    Accounts text start (start + (body.flatMap Piece.chars).length)
      ⟨tokensOf start body, .empty⟩ := by
  induction body generalizing start with
  | nil => exact .empty
  | cons content body ih =>
    obtain ⟨here, rest⟩ := append_prefix_drop_iff.mp (List.flatMap_cons ▸ located)
    rw [List.flatMap_cons, List.length_append, ← Nat.add_assoc]
    exact (Accounts.piece here).append (ih rest)

theorem enclose {definition : Macro.Definition} {place : Nat}
    (inside : Accounts text start stop ⟨definition.body, .empty⟩)
    (stands : definition.StandsIn text) (located : definition.offset = place)
    (named : place + definition.name.length ≤ start)
    (plain : ∀ (index : Nat) (symbol : Symbol), place + definition.name.length ≤ index →
      index < start → text[index]? ≠ some symbol.toChar)
    (closed : ∀ symbol : Symbol, text[stop]? ≠ some symbol.toChar) :
    Accounts text place (stop + 1) ⟨[], ⟨[definition]⟩⟩ where
  ordered := by have := inside.ordered; omega
  ascending := by simpa [lists] using inside.ascending _ List.mem_cons_self
  within token held := by
    have span := inside.within token (by simpa [Holds, Macro.Table.empty] using held)
    omega
  stands token held := inside.stands token (by simpa [Holds, Macro.Table.empty] using held)
  braced := by simpa using stands
  once index symbol after before found := by
    rw [uses_definition]
    have ordered := inside.ordered
    by_cases name : index < place + definition.name.length
    · rw [inside.elsewhere index (by omega), if_pos ((namesOver_iff located).mpr ⟨after, name⟩)]
    · have later : start ≤ index := by
        by_contra early
        exact plain index symbol (by omega) (by omega) found
      have earlier : index ≠ stop := by
        rintro rfl
        exact closed symbol found
      rw [inside.once index symbol later (by omega) found,
        if_neg fun covered => name ((namesOver_iff located).mp covered).2]
  elsewhere index outside := by
    have ordered := inside.ordered
    rw [uses_definition, inside.elsewhere index (by omega), if_neg]
    rw [namesOver_iff located]
    omega

theorem definition {name : Word} {gap : Option Blanks} {body : List Piece}
    (located : (Part.definition name gap body).chars <+: text.drop start) :
    Accounts text start (start + (Part.definition name gap body).chars.length)
      ((Part.definition name gap body).read start) := by
  have whole : (Part.definition name gap body).chars = name.chars ++
      ((Item.gapChars gap ++ ['\x7b']) ++ (body.flatMap Piece.chars ++ ['\x7d'])) := by
    simp [Part.chars]
  have begins : start + name.chars.length + (Item.gapChars gap ++ ['\x7b']).length =
      start + (Item.opening name gap).chars.length := by
    simp [Item.chars, Nat.add_assoc]
  have ends : start + (Part.definition name gap body).chars.length =
      start + (Item.opening name gap).chars.length + (body.flatMap Piece.chars).length + 1 := by
    rw [whole, ← begins]
    simp only [List.length_append, List.length_singleton]
    omega
  have split := located
  rw [whole] at split
  obtain ⟨-, behind⟩ := append_prefix_drop_iff.mp split
  obtain ⟨gapped, inner⟩ := append_prefix_drop_iff.mp behind
  rw [begins] at inner
  obtain ⟨inner, last⟩ := append_prefix_drop_iff.mp inner
  have inside := Accounts.pieces inner
  have length : name.text.length = name.chars.length := String.length_ofList
  have blank := gapChars_blank gap
  rw [ends]
  refine .enclose inside ⟨start, Item.gapChars gap, body.flatMap Piece.chars, rfl, ?_, blank,
    not_mem_pieces body (by decide) (by decide) (by decide),
    not_mem_pieces body (by decide) (by decide) (by decide), fun token held => ?_⟩ rfl ?_
    (fun index symbol after before => ?_) fun symbol => ?_
  · simpa [Run.text, Part.chars] using located
  · have span := inside.within token (holds_tokens.mpr held)
    rw [← begins] at span
    simp only [length, List.length_append, List.length_singleton] at span ⊢
    omega
  · rw [length, ← begins]
    exact Nat.le_add_right _ _
  · refine ne_toChar_of_prefix_drop gapped (fun char member => ?_) (length ▸ after)
      (begins ▸ before) symbol
    rcases List.mem_append.mp member with spaced | brace
    · exact isWordChar_eq_false_of_isBlank (blank char spaced)
    · rw [List.mem_singleton.mp brace]
      decide
  · exact ne_toChar_of_prefix_drop last (List.forall_mem_singleton.mpr (by decide))
      (Nat.le_refl _) (by simp) symbol

theorem part {part : Part} (located : part.chars <+: text.drop start) :
    Accounts text start (start + part.chars.length) (part.read start) := by
  cases part with
  | piece content => exact .piece located
  | definition name gap body => exact .definition located

theorem parts {parts : List Part} (located : textOf parts <+: text.drop start) :
    Accounts text start (start + (textOf parts).length) (readOff start parts) := by
  induction parts generalizing start with
  | nil => exact .empty
  | cons part parts ih =>
    rw [textOf, List.flatMap_cons] at located ⊢
    obtain ⟨here, rest⟩ := append_prefix_drop_iff.mp located
    rw [List.length_append, ← Nat.add_assoc]
    exact (Accounts.part here).append (ih rest)

end Accounts

/-- What the parts of a text say accounts for all of it. -/
theorem Splits.accounts {parts : List Part} (splits : Splits text parts) :
    Accounts text 0 text.length (readOff 0 parts) := by
  have located : textOf parts <+: text.drop 0 := by simp [splits.spelled]
  have accounts := Accounts.parts located
  rwa [splits.spelled, Nat.zero_add] at accounts

/-- Reading loses and duplicates nothing. -/
theorem ofSource_accounts {source : String} (read : ofSource source = .ok scan) :
    Accounts source.toList 0 source.toList.length scan := by
  obtain ⟨parts, splits, -, rfl⟩ := ofSource_eq_ok_iff_splits.mp read
  exact splits.accounts

/-- Symbols in the name of a definition, in its body, in the name of a call, and outside. -/
theorem ofSource_accounts_symbols :
    ofSource "a+ {-b} x#@a+@" = .ok
      ⟨[.ofSymbol .breakpoint 9, .callOf "a+" 10], ⟨[⟨"a+", [.ofSymbol .decrement 4], 0⟩]⟩⟩ ∧
    Accounts "a+ {-b} x#@a+@".toList 0 14
      ⟨[.ofSymbol .breakpoint 9, .callOf "a+" 10], ⟨[⟨"a+", [.ofSymbol .decrement 4], 0⟩]⟩⟩ :=
  ⟨by cbv, ofSource_accounts (by cbv)⟩

end Scan
end Brainfuck
