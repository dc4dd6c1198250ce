import Brainfuck.Symbol

namespace Brainfuck

/-- A symbol that is no bracket. -/
inductive Primitive where
  | right
  | left
  | increment
  | decrement
  | output
  | input
  | breakpoint
  deriving DecidableEq, Repr

def Primitive.symbol : Primitive → Symbol
  | right => .right
  | left => .left
  | increment => .increment
  | decrement => .decrement
  | output => .output
  | input => .input
  | breakpoint => .breakpoint

/-- Primitives and loops one after another; each loop has a block inside. -/
inductive Block where
  | empty
  | primitive (first : Primitive) (rest : Block)
  | loop (body rest : Block)
  deriving DecidableEq, Repr

namespace Block

def symbols : Block → List Symbol
  | empty => []
  | primitive first rest => first.symbol :: rest.symbols
  | loop body rest => .loopStart :: (body.symbols ++ .loopEnd :: rest.symbols)

/-- The number of symbols. -/
def size : Block → Nat
  | empty => 0
  | primitive _ rest => rest.size + 1
  | loop body rest => body.size + rest.size + 2

def append : Block → Block → Block
  | empty, following => following
  | primitive first rest, following => primitive first (rest.append following)
  | loop body rest, following => loop body (rest.append following)

@[simp]
theorem length_symbols (block : Block) : block.symbols.length = block.size := by
  induction block with
  | empty => rfl
  | primitive first rest ih => simp [symbols, size, ih]
  | loop body rest ihBody ihRest =>
    simp only [symbols, size, List.length_cons, List.length_append, ihBody, ihRest]
    omega

@[simp]
theorem append_empty (block : Block) : block.append .empty = block := by
  induction block with
  | empty => rfl
  | primitive first rest ih => rw [append, ih]
  | loop body rest _ ih => rw [append, ih]

theorem count_symbols (block : Block) :
    block.symbols.count .loopEnd = block.symbols.count .loopStart := by
  induction block with
  | empty => rfl
  | primitive first rest ih => cases first <;> simpa [symbols, Primitive.symbol] using ih
  | loop body rest ihBody ihRest => simp [symbols, ihBody, ihRest]; omega

end Block

/-- What a list of symbols consists of: a block, blocks that each follow a loop end
which closes nothing, and blocks that each follow a loop start which nothing closes. -/
structure Reading where
  head : Block := .empty
  closed : List Block := []
  opened : List Block := []
  deriving DecidableEq, Repr

namespace Reading

def symbols (reading : Reading) : List Symbol :=
  reading.head.symbols ++ reading.closed.flatMap (.loopEnd :: ·.symbols) ++
    reading.opened.flatMap (.loopStart :: ·.symbols)

def push (first : Primitive) (reading : Reading) : Reading :=
  { reading with head := .primitive first reading.head }

/-- A loop end before a reading closes nothing there. -/
def close (reading : Reading) : Reading :=
  { reading with head := .empty, closed := reading.head :: reading.closed }

/-- A loop start before a reading is closed by the first loop end left over. -/
def start : Reading → Reading
  | ⟨head, next :: closed, opened⟩ => ⟨.loop head next, closed, opened⟩
  | ⟨head, [], opened⟩ => ⟨.empty, [], head :: opened⟩

def cons : Symbol → Reading → Reading
  | .right => push .right
  | .left => push .left
  | .increment => push .increment
  | .decrement => push .decrement
  | .output => push .output
  | .input => push .input
  | .breakpoint => push .breakpoint
  | .loopStart => start
  | .loopEnd => close

def ofSymbols (symbols : List Symbol) : Reading := symbols.foldr cons {}

@[simp]
theorem ofSymbols_cons (symbol : Symbol) (rest : List Symbol) :
    ofSymbols (symbol :: rest) = cons symbol (ofSymbols rest) := rfl

theorem symbols_push (first : Primitive) (reading : Reading) :
    (push first reading).symbols = first.symbol :: reading.symbols := rfl

theorem symbols_close (reading : Reading) :
    reading.close.symbols = .loopEnd :: reading.symbols := by
  simp [close, symbols, Block.symbols]

theorem symbols_start (reading : Reading) :
    reading.start.symbols = .loopStart :: reading.symbols := by
  obtain ⟨head, closed, opened⟩ := reading
  cases closed <;> simp [start, symbols, Block.symbols]

theorem symbols_ofSymbols (symbols : List Symbol) : (ofSymbols symbols).symbols = symbols := by
  induction symbols with
  | nil => rfl
  | cons symbol rest ih =>
    rw [ofSymbols_cons]
    cases symbol with
    | loopStart => rw [cons, symbols_start, ih]
    | loopEnd => rw [cons, symbols_close, ih]
    | _ => rw [cons, symbols_push, ih]; rfl

theorem cons_symbol (first : Primitive) : cons first.symbol = push first := by
  cases first <;> rfl

/-- The symbols of a block are read as that block, whatever follows them. -/
theorem ofSymbols_append (block : Block) (rest : List Symbol) :
    ofSymbols (block.symbols ++ rest) =
      { ofSymbols rest with head := block.append (ofSymbols rest).head } := by
  induction block generalizing rest with
  | empty => rfl
  | primitive first following ih =>
    rw [Block.symbols, List.cons_append, ofSymbols_cons, cons_symbol, ih]
    rfl
  | loop body following ihBody ihFollowing =>
    rw [Block.symbols, List.cons_append, List.append_assoc, List.cons_append, ofSymbols_cons,
      ihBody, ofSymbols_cons, ihFollowing]
    simp [cons, close, start, Block.append]

theorem ofSymbols_symbols (block : Block) : ofSymbols block.symbols = { head := block } := by
  have read := ofSymbols_append block []
  simpa [ofSymbols] using read

end Reading

theorem Block.symbols_injective {first second : Block} (same : first.symbols = second.symbols) :
    first = second := by
  have read := Reading.ofSymbols_symbols first
  rw [same, Reading.ofSymbols_symbols] at read
  exact (congrArg Reading.head read).symm

/-- No prefix has more loop ends than loop starts, and the totals agree. -/
def Balanced (symbols : List Symbol) : Prop :=
  (∀ length ≤ symbols.length,
    (symbols.take length).count .loopEnd ≤ (symbols.take length).count .loopStart) ∧
  symbols.count .loopEnd = symbols.count .loopStart

instance (symbols : List Symbol) : Decidable (Balanced symbols) :=
  inferInstanceAs (Decidable (_ ∧ _))

/-- No prefix of a block has more loop ends than loop starts. -/
theorem Block.count_take_symbols (block : Block) (length : Nat) :
    (block.symbols.take length).count .loopEnd ≤ (block.symbols.take length).count .loopStart := by
  induction block generalizing length with
  | empty => simp [symbols]
  | primitive first rest ih =>
    cases length with
    | zero => simp
    | succ length => cases first <;> simpa [symbols, Primitive.symbol] using ih length
  | loop body rest ihBody ihRest =>
    cases length with
    | zero => simp
    | succ length =>
      rw [symbols, List.take_succ_cons, List.take_append, length_symbols]
      cases past : length - body.size with
      | zero =>
        have inner := ihBody length
        simp
        omega
      | succ behind =>
        have whole : body.symbols.take length = body.symbols :=
          List.take_of_length_le (by rw [length_symbols]; omega)
        have outer := ihRest behind
        simp [whole, count_symbols]
        omega

theorem Block.balanced (block : Block) : Balanced block.symbols :=
  ⟨fun length _ => block.count_take_symbols length, block.count_symbols⟩

/-- Symbols are those of a block, or have a loop end behind a block, or a loop start before the
block they end in. -/
theorem Block.exists_or_unmatched (symbols : List Symbol) :
    (∃ block : Block, block.symbols = symbols) ∨
      (∃ (head : Block) (rest : List Symbol), head.symbols ++ .loopEnd :: rest = symbols) ∨
      ∃ (head : Block) (others : List Block) (last : Block), head.symbols ++
        others.flatMap (.loopStart :: ·.symbols) ++ .loopStart :: last.symbols = symbols := by
  have parts := Reading.symbols_ofSymbols symbols
  rw [Reading.symbols] at parts
  cases strays : (Reading.ofSymbols symbols).closed with
  | cons next closed =>
    rw [strays, List.flatMap_cons, List.append_assoc, List.cons_append, List.cons_append] at parts
    exact .inr (.inl ⟨_, _, parts⟩)
  | nil =>
    rw [strays, List.flatMap_nil, List.append_nil] at parts
    rcases List.eq_nil_or_concat (Reading.ofSymbols symbols).opened with starts | starts
    · rw [starts, List.flatMap_nil, List.append_nil] at parts
      exact .inl ⟨_, parts⟩
    · obtain ⟨others, last, starts⟩ := starts
      rw [starts, List.concat_eq_append, List.flatMap_append, List.flatMap_singleton,
        ← List.append_assoc] at parts
      exact .inr (.inr ⟨_, others, last, parts⟩)

/-- Balanced symbols are those of a block. A loop end left over would end a prefix with too many
loop ends, and a loop start left over would make the totals differ. -/
theorem Balanced.exists_block {symbols : List Symbol} (balanced : Balanced symbols) :
    ∃ block : Block, block.symbols = symbols := by
  rcases Block.exists_or_unmatched symbols with block | stray | unclosed
  · exact block
  · obtain ⟨head, rest, rfl⟩ := stray
    have bound := balanced.1 (head.size + 1) (by simp)
    rw [← Block.length_symbols, List.take_length_add_append, List.count_append, List.count_append,
      Block.count_symbols] at bound
    exact absurd bound (by simp)
  · obtain ⟨head, others, last, rfl⟩ := unclosed
    have starts (blocks : List Block) :
        (blocks.flatMap (.loopStart :: ·.symbols)).count .loopEnd ≤
          (blocks.flatMap (.loopStart :: ·.symbols)).count Symbol.loopStart := by
      induction blocks with
      | nil => simp
      | cons block blocks ih => simp [Block.count_symbols]; omega
    have total := balanced.2
    have bound := starts others
    simp [Block.count_symbols] at total
    omega

end Brainfuck
