import Mathlib.Data.List.Chain
import Brainfuck.Proofs.Scan.Cutting
import Brainfuck.Scan

namespace Brainfuck.Scan

/-- What stands in a body as well as outside. -/
inductive Piece where
  | blanks (run : Blanks)
  | call (name : Word)
  | word (run : Word)

/-- A piece, or where a definition begins or ends. -/
inductive Item where
  | piece (content : Piece)
  | opening (name : Word) (gap : Option Blanks)
  | closing

def Piece.chars : Piece → List Char
  | blanks run => run.chars
  | call name => callMark :: name.chars ++ [callMark]
  | word run => run.chars

/-- The tokens of a piece that stands at an offset. -/
def Piece.tokens (offset : Nat) : Piece → List Token
  | blanks _ => []
  | call name => [.callOf name.text offset]
  | word run => wordTokens offset run.chars

namespace Item

def gapChars (gap : Option Blanks) : List Char := gap.elim [] Run.chars

def chars : Item → List Char
  | piece content => content.chars
  | opening name gap => name.chars ++ gapChars gap ++ ['\x7b']
  | closing => ['\x7d']

def beginsWord : Item → Bool
  | piece (.word _) | opening _ _ => true
  | piece (.blanks _) | piece (.call _) | closing => false

def endsWord : Item → Bool
  | piece (.word _) => true
  | piece (.blanks _) | piece (.call _) | opening _ _ | closing => false

theorem chars_eq_cons (item : Item) :
    ∃ char rest, item.chars = char :: rest ∧ isWordChar char = item.beginsWord := by
  cases item with
  | piece content =>
    cases content with
    | blanks run =>
      obtain ⟨char, rest, same⟩ := List.exists_cons_of_ne_nil run.nonempty
      have blank := run.passes char (by simp [same])
      exact ⟨char, rest, same, isWordChar_eq_false_of_isBlank blank⟩
    | call name => exact ⟨callMark, name.chars ++ [callMark], rfl, rfl⟩
    | word run =>
      obtain ⟨char, rest, same⟩ := List.exists_cons_of_ne_nil run.nonempty
      exact ⟨char, rest, same, run.passes char (by simp [same])⟩
  | opening name gap =>
    obtain ⟨char, rest, same⟩ := List.exists_cons_of_ne_nil name.nonempty
    refine ⟨char, rest ++ gapChars gap ++ ['\x7b'], by simp [chars, same], ?_⟩
    exact name.passes char (by simp [same])
  | closing => exact ⟨'\x7d', [], rfl, rfl⟩

end Item

/-- The text of items one after another. -/
def spell (items : List Item) : List Char := items.flatMap Item.chars

@[simp]
theorem spell_nil : spell [] = [] := rfl

@[simp]
theorem spell_cons (item : Item) (items : List Item) :
    spell (item :: items) = item.chars ++ spell items := rfl

@[simp]
theorem spell_append (first second : List Item) :
    spell (first ++ second) = spell first ++ spell second := List.flatMap_append

/-- No word ends where another one begins. -/
def Separated (items : List Item) : Prop :=
  items.IsChain fun first second => first.endsWord = true → second.beginsWord = false

/-- A run of blanks or of word characters goes on from one character to the next. -/
def runsOn (last next : Char) : Bool :=
  isWordChar last && isWordChar next || Text.isBlank last && Text.isBlank next

/-- The runs among the items are as long as they can be: none goes on where two items meet. -/
def Maximal (items : List Item) : Prop :=
  items.IsChain fun first second =>
    ∀ last ∈ first.chars.getLast?, ∀ next ∈ second.chars.head?, runsOn last next = false

/-- Reading items from an offset on leads from a state to what is read in the end. -/
inductive Reads : State → Nat → List Item → Scan → Prop where
  | done {state : State} {offset : Nat} (outside : state.opening = none) :
      Reads state offset [] ⟨state.tokens.toList, ⟨state.definitions.toList⟩⟩
  | piece {state : State} {offset : Nat} {content : Piece} {items : List Item} {scan : Scan}
      (rest : Reads (state.emit (content.tokens offset)) (offset + content.chars.length) items
        scan) :
      Reads state offset (.piece content :: items) scan
  | opening {state opened : State} {offset : Nat} {name : Word} {gap : Option Blanks}
      {items : List Item} {scan : Scan} (outside : state.opening = none)
      (fresh : state.define name.text offset = .ok opened)
      (rest : Reads opened (offset + (Item.opening name gap).chars.length) items scan) :
      Reads state offset (.opening name gap :: items) scan
  | closing {state : State} {opening : Opening} {offset : Nat} {items : List Item} {scan : Scan}
      (inside : state.opening = some opening)
      (rest : Reads (state.close opening) (offset + 1) items scan) :
      Reads state offset (.closing :: items) scan

variable {state opened : State} {opening : Opening} {offset : Nat} {char : Char}
  {run after text : List Char} {rest : List Lexeme} {item : Item} {items : List Item} {scan : Scan}

theorem isBlank_openingBrace : Text.isBlank '\x7b' = false := by decide

theorem emit_nil (state : State) : state.emit [] = state := by
  obtain ⟨tokens, definitions, opening⟩ := state
  cases opening <;> simp [State.emit]

namespace Separated

theorem boundary (separated : Separated (item :: items)) (word : item.endsWord = true) :
    ∀ char ∈ (spell items).head?, isWordChar char = false := by
  cases items with
  | nil => simp
  | cons next items =>
    intro char first
    obtain ⟨other, rest, same, begins⟩ := next.chars_eq_cons
    have apart := (List.isChain_cons.mp separated).1 next rfl word
    simp only [spell_cons, same, List.cons_append, List.head?_cons, Option.mem_def,
      Option.some.injEq] at first
    rw [← first, begins, apart]

theorem tail (separated : Separated (item :: items)) : Separated items :=
  (List.isChain_cons.mp separated).2

theorem cons_of_not_endsWord (separated : Separated items) (ended : item.endsWord = false) :
    Separated (item :: items) :=
  List.isChain_cons.mpr ⟨fun _ _ word => by simp [ended] at word, separated⟩

theorem append {others : List Item} (first : Separated items) (second : Separated others)
    (apart : ∀ item ∈ others.head?, item.beginsWord = false) : Separated (items ++ others) :=
  List.isChain_append.mpr ⟨first, second, fun _ _ next begins _ => apart next begins⟩

end Separated

theorem runsOn_of_word {last next : Char} (word : isWordChar last = true) :
    runsOn last next = isWordChar next := by
  simp [runsOn, word, isBlank_eq_false_of_isWordChar word]

theorem runsOn_of_blank {last next : Char} (blank : Text.isBlank last = true) :
    runsOn last next = Text.isBlank next := by
  simp [runsOn, blank, isWordChar_eq_false_of_isBlank blank]

namespace Maximal

theorem cons (maximal : Maximal items) (seam : ∀ last ∈ item.chars.getLast?,
    ∀ next ∈ (spell items).head?, runsOn last next = false) : Maximal (item :: items) := by
  refine List.isChain_cons.mpr ⟨fun second first last ends next begins => ?_, maximal⟩
  obtain ⟨others, rfl⟩ := List.head?_eq_some_iff.mp first
  obtain ⟨rest, same⟩ := List.head?_eq_some_iff.mp begins
  exact seam last ends next (by simp [same])

theorem cons_run {test : Char → Bool} (maximal : Maximal items) (run : Run test)
    (chars : item.chars = run.chars)
    (only : ∀ last next, test last = true → runsOn last next = test next)
    (boundary : ∀ char ∈ (spell items).head?, test char = false) : Maximal (item :: items) := by
  refine maximal.cons fun last ends next begins => ?_
  rw [chars] at ends
  rw [only last next (run.passes last (List.mem_of_getLast? ends))]
  exact boundary next begins

theorem cons_mark {front : List Char} {mark : Char} (maximal : Maximal items)
    (chars : item.chars = front ++ [mark]) (ends : ∀ next, runsOn mark next = false) :
    Maximal (item :: items) := by
  refine maximal.cons fun last found next _ => ?_
  rw [chars, List.getLast?_concat] at found
  cases found
  exact ends next

theorem cons_call (maximal : Maximal items) (name : Word) :
    Maximal (.piece (.call name) :: items) := by
  have chars : (Item.piece (.call name)).chars = (callMark :: name.chars) ++ [callMark] := rfl
  exact maximal.cons_mark chars fun _ => rfl

theorem cons_opening (maximal : Maximal items) (name : Word) (gap : Option Blanks) :
    Maximal (.opening name gap :: items) := by
  have chars : (Item.opening name gap).chars =
      (name.chars ++ Item.gapChars gap) ++ ['\x7b'] := rfl
  exact maximal.cons_mark chars fun _ => rfl

theorem cons_closing (maximal : Maximal items) : Maximal (.closing :: items) := by
  have chars : Item.closing.chars = [] ++ ['\x7d'] := rfl
  exact maximal.cons_mark chars fun _ => rfl

theorem tail (maximal : Maximal (item :: items)) : Maximal items :=
  (List.isChain_cons.mp maximal).2

theorem boundary {test : Char → Bool} (maximal : Maximal (item :: items)) (run : Run test)
    (chars : item.chars = run.chars)
    (only : ∀ last next, test last = true → runsOn last next = test next) :
    ∀ char ∈ (spell items).head?, test char = false := by
  intro char begins
  cases items with
  | nil => cases begins
  | cons second items =>
    obtain ⟨first, rest, same, -⟩ := second.chars_eq_cons
    have next : char ∈ second.chars.head? := by simpa [same] using begins
    have ends : item.chars.getLast? = some (run.chars.getLast run.nonempty) := by
      rw [chars, List.getLast?_eq_some_getLast run.nonempty]
    have apart := (List.isChain_cons.mp maximal).1 second rfl _ ends char next
    rwa [only _ _ (run.passes _ (List.getLast_mem run.nonempty))] at apart

theorem separated (maximal : Maximal items) : Separated items := by
  induction items with
  | nil => exact .nil
  | cons item items ih =>
    refine List.isChain_cons.mpr ⟨fun second first word => ?_, ih maximal.tail⟩
    obtain ⟨others, rfl⟩ := List.head?_eq_some_iff.mp first
    obtain ⟨char, rest, same, begins⟩ := second.chars_eq_cons
    rw [← begins]
    cases item with
    | piece content =>
      cases content with
      | word run =>
        exact maximal.boundary run rfl (fun _ _ => runsOn_of_word) char (by simp [same])
      | _ => cases word
    | _ => cases word

end Maximal

/-- After blanks, items go on with something else than an opening brace. -/
theorem head_dropWhile_spell (items : List Item) :
    ((spell items).dropWhile Text.isBlank).head? ≠ some '\x7b' := by
  have stops {char : Char} {chars : List Char} (filled : Text.isBlank char = false)
      (other : char ≠ '\x7b') :
      ((char :: chars).dropWhile Text.isBlank).head? ≠ some '\x7b' := by
    simp [filled, other]
  have word {run : Word} {after : List Char} :
      ((run.chars ++ after).dropWhile Text.isBlank).head? ≠ some '\x7b' := by
    obtain ⟨char, rest, same⟩ := List.exists_cons_of_ne_nil run.nonempty
    have passes := run.passes char (by simp [same])
    rw [same]
    refine stops (isBlank_eq_false_of_isWordChar passes) ?_
    rintro rfl
    revert passes
    decide
  induction items with
  | nil => simp
  | cons item items ih =>
    rw [spell_cons]
    cases item with
    | piece content =>
      cases content with
      | blanks run => rwa [Item.chars, Piece.chars, List.dropWhile_append_of_pos run.passes]
      | call name => exact stops (by decide) (by decide)
      | word run => exact word
    | opening name gap =>
      rw [Item.chars, List.append_assoc, List.append_assoc]
      exact word
    | closing => exact stops (by decide) (by decide)

theorem readFrom_blank (blank : Text.isBlank char = true) :
    readFrom state offset (Lexeme.ofChars (char :: after)) =
      readFrom state (offset + 1) (Lexeme.ofChars after) := by
  rw [Lexeme.ofChars_cons, Lexeme.ofChar_of_isBlank blank]
  rcases Lexeme.join_cases (.blank [char]) (Lexeme.ofChars after) with
    alone | ⟨next, rest, joined, found, joins, same⟩
  · rw [alone]
    simp [readFrom]
  · rw [same, found]
    cases joins with
    | blanks _ more =>
      simp only [readFrom, List.length_append, List.length_singleton]
      rw [Nat.add_assoc]

theorem readFrom_blanks (blank : ∀ char ∈ run, Text.isBlank char = true) :
    readFrom state offset (Lexeme.ofChars (run ++ after)) =
      readFrom state (offset + run.length) (Lexeme.ofChars after) := by
  induction run generalizing offset with
  | nil => rfl
  | cons char run ih =>
    rw [List.cons_append, readFrom_blank (blank char List.mem_cons_self),
      ih fun other member => blank other (List.mem_cons_of_mem _ member)]
    simp only [List.length_cons]
    congr 1
    omega

theorem ofChars_call (name : Word) (after : List Char) :
    Lexeme.ofChars ((Piece.call name).chars ++ after) =
      .callMark :: .word name.chars :: .callMark :: Lexeme.ofChars after := by
  rw [Piece.chars, List.append_assoc, List.cons_append, Lexeme.ofChars_cons,
    Lexeme.cuts_word.ofChars_append name (by simp [isWordChar])]
  simp [Lexeme.join]

theorem ofChars_openingBrace (after : List Char) :
    Lexeme.ofChars ('\x7b' :: after) = .openingBrace :: Lexeme.ofChars after := by
  simp [Lexeme.join]

theorem ofChars_closing (after : List Char) :
    Lexeme.ofChars (Item.closing.chars ++ after) = .closingBrace :: Lexeme.ofChars after := by
  simp [Item.chars, Lexeme.join]

theorem ofChars_opening_none (name : Word) (after : List Char) :
    Lexeme.ofChars ((Item.opening name none).chars ++ after) =
      .word name.chars :: .openingBrace :: Lexeme.ofChars after := by
  rw [Item.chars, Item.gapChars, Option.elim_none, List.append_nil, List.append_assoc,
    List.singleton_append, Lexeme.cuts_word.ofChars_append name (by simp [isWordChar]),
    ofChars_openingBrace]

theorem ofChars_opening_some (name : Word) (gap : Blanks) (after : List Char) :
    Lexeme.ofChars ((Item.opening name (some gap)).chars ++ after) =
      .word name.chars :: .blank gap.chars :: .openingBrace :: Lexeme.ofChars after := by
  rw [Item.chars, Item.gapChars, Option.elim_some, List.append_assoc, List.append_assoc,
    List.singleton_append, Lexeme.cuts_word.ofChars_append name,
    Lexeme.cuts_blank.ofChars_append gap, ofChars_openingBrace]
  · simpa using isBlank_openingBrace
  · obtain ⟨char, rest, same⟩ := List.exists_cons_of_ne_nil gap.nonempty
    have blank := gap.passes char (by simp [same])
    simpa [same] using isWordChar_eq_false_of_isBlank blank

theorem readFrom_call (name : Word) :
    readFrom state offset (Lexeme.ofChars ((Piece.call name).chars ++ after)) =
      readFrom (state.emit [.callOf name.text offset]) (offset + (Piece.call name).chars.length)
        (Lexeme.ofChars after) := by
  rw [ofChars_call, readFrom]
  simp only [Piece.chars, List.length_append, List.length_cons, List.length_nil]
  rfl

theorem readFrom_word_cons
    (unnamed : state.opening = none → (∀ more, rest ≠ .openingBrace :: more) ∧
      ∀ gap more, rest ≠ .blank gap :: .openingBrace :: more) :
    readFrom state offset (.word run :: rest) =
      readFrom (state.emit (wordTokens offset run)) (offset + run.length) rest := by
  rw [readFrom]
  · intro more outside same
    exact (unnamed outside).1 more same
  · intro gap more outside same
    exact (unnamed outside).2 gap more same

theorem readFrom_word (word : Word) (boundary : ∀ char ∈ after.head?, isWordChar char = false)
    (unnamed : state.opening = none → (after.dropWhile Text.isBlank).head? ≠ some '\x7b') :
    readFrom state offset (Lexeme.ofChars (word.chars ++ after)) =
      readFrom (state.emit (wordTokens offset word.chars)) (offset + word.chars.length)
        (Lexeme.ofChars after) := by
  rw [Lexeme.cuts_word.ofChars_append word boundary, readFrom_word_cons]
  intro outside
  specialize unnamed outside
  constructor
  · intro more found
    obtain ⟨behind, rfl, -⟩ := Lexeme.ofChars_eq_cons found
    exact unnamed rfl
  · intro gap more found
    obtain ⟨behind, rfl, braced, proper, -⟩ := Lexeme.ofChars_eq_cons found
    obtain ⟨further, rfl, -⟩ := Lexeme.ofChars_eq_cons braced.symm
    rw [Lexeme.chars, List.dropWhile_append_of_pos proper.2] at unnamed
    exact unnamed rfl

theorem readFrom_opening (name : Word) (gap : Option Blanks) (outside : state.opening = none)
    (fresh : state.define name.text offset = .ok opened) :
    readFrom state offset (Lexeme.ofChars ((Item.opening name gap).chars ++ after)) =
      readFrom opened (offset + (Item.opening name gap).chars.length) (Lexeme.ofChars after) := by
  have defined : state.define (String.ofList name.chars) offset = .ok opened := fresh
  cases gap with
  | none =>
    rw [ofChars_opening_none]
    simp [Item.chars, Item.gapChars, readFrom, outside, defined, Nat.add_assoc]
  | some gap =>
    rw [ofChars_opening_some]
    simp [Item.chars, Item.gapChars, readFrom, outside, defined, Nat.add_assoc]

theorem readFrom_closing (inside : state.opening = some opening) :
    readFrom state offset (Lexeme.ofChars (Item.closing.chars ++ after)) =
      readFrom (state.close opening) (offset + 1) (Lexeme.ofChars after) := by
  rw [ofChars_closing]
  simp [readFrom, inside]

/-- Items that are separated are read from their text as they are. -/
theorem Reads.readFrom (reads : Reads state offset items scan) (separated : Separated items) :
    Scan.readFrom state offset (Lexeme.ofChars (spell items)) = .ok scan := by
  induction reads with
  | done outside => simp [Lexeme.ofChars, Scan.readFrom, outside]
  | @piece state offset content items scan _ ih =>
    have read := ih separated.tail
    cases content with
    | blanks run =>
      rw [Piece.tokens, emit_nil] at read
      exact (readFrom_blanks run.passes).trans read
    | call name => exact (readFrom_call name).trans read
    | word run =>
      exact (readFrom_word run (separated.boundary rfl)
        fun _ => head_dropWhile_spell items).trans read
  | opening outside fresh _ ih =>
    exact (readFrom_opening _ _ outside fresh).trans (ih separated.tail)
  | closing inside _ ih => exact (readFrom_closing inside).trans (ih separated.tail)

theorem exists_reads (read : Scan.readFrom state offset (Lexeme.ofChars text) = .ok scan) :
    ∃ items, spell items = text ∧ Maximal items ∧ Reads state offset items scan := by
  generalize cut : Lexeme.ofChars text = lexemes at read
  fun_induction Scan.readFrom state offset lexemes generalizing text with
  | case1 state offset outside =>
    cases read
    cases text with
    | nil => exact ⟨[], rfl, .nil, .done outside⟩
    | cons char text =>
      have whole := Lexeme.flatMap_chars_ofChars (char :: text)
      rw [cut] at whole
      cases whole
  | case3 state offset run rest ih =>
    obtain ⟨after, rfl, rfl, proper, apart⟩ := Lexeme.ofChars_eq_cons cut
    obtain ⟨items, rfl, maximal, reads⟩ := ih rfl read
    refine ⟨.piece (.blanks ⟨run, proper.1, proper.2⟩) :: items, rfl,
      maximal.cons_run ⟨run, proper.1, proper.2⟩ rfl (fun _ _ => runsOn_of_blank)
        (Lexeme.cuts_blank.boundary_of_join apart), .piece ?_⟩
    rw [Piece.tokens, emit_nil]
    exact reads
  | case4 state offset run rest ih =>
    obtain ⟨first, rfl, behind, -⟩ := Lexeme.ofChars_eq_cons cut
    obtain ⟨second, rfl, behind', proper, -⟩ := Lexeme.ofChars_eq_cons behind.symm
    obtain ⟨after, rfl, rfl, -⟩ := Lexeme.ofChars_eq_cons behind'.symm
    obtain ⟨items, rfl, maximal, reads⟩ := ih rfl read
    refine ⟨.piece (.call ⟨run, proper.1, proper.2⟩) :: items, ?_, maximal.cons_call _,
      .piece ?_⟩
    · simp [Item.chars, Piece.chars, Lexeme.chars]
    · simpa [Piece.tokens, Piece.chars, Run.text, Nat.add_assoc] using reads
  | case9 state offset rest opening inside ih =>
    obtain ⟨after, rfl, rfl, -⟩ := Lexeme.ofChars_eq_cons cut
    obtain ⟨items, rfl, maximal, reads⟩ := ih rfl read
    exact ⟨.closing :: items, rfl, maximal.cons_closing, .closing inside reads⟩
  | case11 state offset run rest outside opened fresh ih =>
    obtain ⟨first, rfl, behind, proper, -⟩ := Lexeme.ofChars_eq_cons cut
    obtain ⟨after, rfl, rfl, -⟩ := Lexeme.ofChars_eq_cons behind.symm
    obtain ⟨items, rfl, maximal, reads⟩ := ih rfl read
    refine ⟨.opening ⟨run, proper.1, proper.2⟩ none :: items, ?_,
      maximal.cons_opening _ _, .opening outside fresh ?_⟩
    · simp [Item.chars, Item.gapChars, Lexeme.chars]
    · simpa [Item.chars, Item.gapChars, Nat.add_assoc] using reads
  | case13 state offset run gap rest outside opened fresh ih =>
    obtain ⟨first, rfl, behind, proper, -⟩ := Lexeme.ofChars_eq_cons cut
    obtain ⟨second, rfl, behind', proper', -⟩ := Lexeme.ofChars_eq_cons behind.symm
    obtain ⟨after, rfl, rfl, -⟩ := Lexeme.ofChars_eq_cons behind'.symm
    obtain ⟨items, rfl, maximal, reads⟩ := ih rfl read
    refine ⟨.opening ⟨run, proper.1, proper.2⟩ (some ⟨gap, proper'.1, proper'.2⟩) :: items, ?_,
      maximal.cons_opening _ _, .opening outside fresh ?_⟩
    · simp [Item.chars, Item.gapChars, Lexeme.chars]
    · simpa [Item.chars, Item.gapChars, Nat.add_assoc] using reads
  | case14 state offset run rest _ _ ih =>
    obtain ⟨after, rfl, rfl, proper, apart⟩ := Lexeme.ofChars_eq_cons cut
    obtain ⟨items, rfl, maximal, reads⟩ := ih rfl read
    exact ⟨.piece (.word ⟨run, proper.1, proper.2⟩) :: items, rfl,
      maximal.cons_run ⟨run, proper.1, proper.2⟩ rfl (fun _ _ => runsOn_of_word)
        (Lexeme.cuts_word.boundary_of_join apart), .piece reads⟩
  | _ => cases read

/-- What is read from a text is what separated items that make it up say. -/
theorem ofSource_eq_ok_iff {source : String} :
    ofSource source = .ok scan ↔
      ∃ items, spell items = source.toList ∧ Separated items ∧ Reads {} 0 items scan := by
  constructor
  · intro read
    obtain ⟨items, same, maximal, reads⟩ := exists_reads read
    exact ⟨items, same, maximal.separated, reads⟩
  · intro written
    obtain ⟨items, same, separated, reads⟩ := written
    rw [ofSource, ← same]
    exact reads.readFrom separated

end Brainfuck.Scan
