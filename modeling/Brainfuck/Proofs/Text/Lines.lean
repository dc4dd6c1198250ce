import Mathlib.Data.List.Basic
import Brainfuck.Text.Lines

namespace Brainfuck.Text

variable {front rest text chunk line : List Char} {place number around : Nat}

theorem lines_eq_splitOn (chars : List Char) : lines chars = chars.splitOn '\n' := by
  induction chars with
  | nil => rfl
  | cons char rest ih =>
    rw [List.splitOn, List.splitOnP_cons_eq_if_modifyHead, lines]
    by_cases feed : char = '\n'
    · rw [if_pos feed, if_pos (by simpa using feed), ih]
      rfl
    · rw [if_neg feed, if_neg (by simpa using feed)]
      change _ = (rest.splitOn '\n').modifyHead (List.cons char)
      rw [← ih]
      cases found : lines rest with
      | nil => exact absurd found (lines_ne_nil rest)
      | cons line others => rfl

theorem lines_intercalate {rows : List (List Char)} (nonempty : rows ≠ [])
    (plain : ∀ row ∈ rows, '\n' ∉ row) : lines (['\n'].intercalate rows) = rows := by
  rw [lines_eq_splitOn, List.splitOn_intercalate _ plain nonempty]

theorem not_mem_of_mem_lines (member : line ∈ lines text) : '\n' ∉ line := by
  induction text generalizing line with
  | nil =>
    cases List.mem_singleton.mp member
    exact List.not_mem_nil
  | cons char rest ih =>
    rw [lines] at member
    split at member
    · rcases List.mem_cons.mp member with rfl | later
      · exact List.not_mem_nil
      · exact ih later
    · next unfed =>
      split at member
      · cases List.mem_singleton.mp member
        simpa using Ne.symm unfed
      · next first others found =>
        rcases List.mem_cons.mp member with rfl | later
        · have plain := ih (found ▸ List.mem_cons_self)
          simpa [Ne.symm unfed] using plain
        · exact ih (found ▸ List.mem_cons_of_mem _ later)

/-- Where two texts meet, the last line of the first goes on with the first line of the second. -/
theorem exists_lines_append (front rest : List Char) :
    ∃ before last first behind, lines front = before ++ [last] ∧ lines rest = first :: behind ∧
      lines (front ++ rest) = before ++ (last ++ first) :: behind := by
  induction front with
  | nil =>
    obtain ⟨first, behind, same⟩ := List.exists_cons_of_ne_nil (lines_ne_nil rest)
    exact ⟨[], [], first, behind, rfl, same, same⟩
  | cons char front ih =>
    obtain ⟨before, last, first, behind, whole, same, joined⟩ := ih
    by_cases feed : char = '\n'
    · exact ⟨[] :: before, last, first, behind, by simp [lines, feed, whole], same,
        by simp [lines, feed, joined]⟩
    · cases before with
      | nil =>
        exact ⟨[], char :: last, first, behind, by simp [lines, feed, whole], same,
          by simp [lines, feed, joined]⟩
      | cons line before =>
        exact ⟨(char :: line) :: before, last, first, behind, by simp [lines, feed, whole], same,
          by simp [lines, feed, joined]⟩

theorem lines_of_not_mem (plain : '\n' ∉ chunk) : lines chunk = [chunk] := by
  have single := lines_intercalate (List.cons_ne_nil chunk []) (List.forall_mem_singleton.mpr plain)
  simpa [List.intercalate] using single

theorem exists_line (located : chunk <+: text.drop place) (plain : '\n' ∉ chunk) :
    ∃ line, (lines text)[lineOf text place - 1]? = some line ∧ chunk <:+: line := by
  obtain ⟨back, same⟩ := located
  obtain ⟨before, last, first, behind, front, rest, whole⟩ :=
    exists_lines_append (text.take place) (chunk ++ back)
  obtain ⟨before', last', first', behind', front', rest', whole'⟩ := exists_lines_append chunk back
  rw [lines_of_not_mem plain] at front'
  obtain ⟨rfl, rfl⟩ : before' = [] ∧ last' = chunk := by
    cases before' <;> simp_all
  rw [List.nil_append, rest, List.cons.injEq] at whole'
  obtain ⟨rfl, -⟩ := whole'
  rw [same, List.take_append_drop] at whole
  have feeds := length_lines (text.take place)
  rw [front, List.length_append, List.length_singleton] at feeds
  have number : lineOf text place - 1 = before.length := by
    rw [lineOf, Int.toNat_natCast]
    omega
  refine ⟨last ++ (last' ++ first'), by rw [whole, number]; simp, last, first', ?_⟩
  simp

/-- A line of a text as an excerpt shows it: a mark, its number, and all of the line. -/
def shownLine (mark : Char) (number : Nat) (line : List Char) : List Char :=
  mark :: ' ' :: (rightAligned 4 number).toList ++ [' ', '|', ' '] ++ line

/-- Lines beside the one that is meant, with their numbers from a number on. -/
def shownLines (first : Nat) (all : List (List Char)) : List (List Char) :=
  (all.zipIdx first).map fun (line, number) => shownLine ' ' number line

/-- A line as an excerpt shows it that means the line of a number. -/
def excerptLine (meant : Nat) (line : List Char) (number : Nat) : List Char :=
  shownLine (if number = meant then '>' else ' ') number line

theorem toList_excerptRow (marked : Bool) (number : Nat) (line : List Char) :
    (excerptRow marked number (String.ofList line)).toList =
      shownLine (if marked then '>' else ' ') number line := by
  cases marked <;> simp [excerptRow, shownLine]

theorem not_mem_repr (number : Int) : '\n' ∉ number.repr.toList := by
  have digits (number : Nat) : '\n' ∉ number.repr.toList := by
    rw [Nat.toList_repr]
    intro member
    cases Nat.isDigit_of_mem_toDigits (by decide) (by decide) member
  cases number with
  | ofNat number => exact digits number
  | negSucc number =>
    change '\n' ∉ ("-" ++ (number + 1).repr).toList
    simpa using digits (number + 1)

theorem not_mem_rightAligned (width : Nat) (number : Int) :
    '\n' ∉ (rightAligned width number).toList := by
  intro member
  rw [rightAligned, String.toList_ofList, List.leftpad, List.mem_append] at member
  rcases member with blank | digit
  · cases (List.mem_replicate.mp blank).2
  · exact not_mem_repr number digit

theorem not_mem_shownLine {mark : Char} (unfed : mark ≠ '\n') (plain : '\n' ∉ line) :
    '\n' ∉ shownLine mark number line := by
  have digits := not_mem_rightAligned 4 number
  simp [shownLine, Ne.symm unfed, digits, plain]

section numbered

variable {Item Row : Type} {items : List Item} {start first last : Nat}

theorem filterMap_zipIdx_eq_nil (wanted : Nat → Prop) [DecidablePred wanted]
    (row : Item → Nat → Row)
    (without : ∀ number, start ≤ number → number < start + items.length → ¬ wanted number) :
    (items.zipIdx start).filterMap (fun (item, number) =>
      if wanted number then some (row item number) else none) = [] := by
  refine List.filterMap_eq_nil_iff.mpr fun entry member => if_neg ?_
  obtain ⟨above, below, -⟩ := List.mem_zipIdx member
  exact without _ above below

theorem filterMap_zipIdx_eq_map (wanted : Nat → Prop) [DecidablePred wanted]
    (row : Item → Nat → Row)
    (all : ∀ number, start ≤ number → number < start + items.length → wanted number) :
    (items.zipIdx start).filterMap (fun (item, number) =>
      if wanted number then some (row item number) else none) =
        (items.zipIdx start).map fun (item, number) => row item number := by
  rw [← List.filterMap_eq_map]
  refine List.filterMap_congr fun entry member => if_pos ?_
  obtain ⟨above, below, -⟩ := List.mem_zipIdx member
  exact all _ above below

theorem filterMap_zipIdx_between (row : Item → Nat → Row) (inside : first ≤ items.length)
    (ordered : first ≤ last) :
    (items.zipIdx 1).filterMap (fun (item, number) =>
        if first < number ∧ number ≤ last then some (row item number) else none) =
      (((items.take last).drop first).zipIdx (first + 1)).map fun (item, number) =>
        row item number := by
  have whole : items = items.take first ++ ((items.take last).drop first ++ items.drop last) := by
    rw [← List.append_assoc, ← Nat.min_eq_left ordered, ← List.take_take,
      Nat.min_eq_left ordered, List.take_append_drop, List.take_append_drop]
  have before : (items.take first).length = first := List.length_take_of_le inside
  have among : ((items.take last).drop first).length = min last items.length - first := by
    rw [List.length_drop, List.length_take]
  have behind : (items.drop last).length = items.length - last := List.length_drop
  conv =>
    lhs
    rw [whole, List.zipIdx_append, List.zipIdx_append, before, among]
  let between (number : Nat) : Prop := first < number ∧ number ≤ last
  rw [List.filterMap_append, List.filterMap_append, filterMap_zipIdx_eq_nil between row,
    filterMap_zipIdx_eq_map between row, filterMap_zipIdx_eq_nil between row, List.nil_append,
    List.append_nil, Nat.add_comm 1]
  all_goals
    intro number above below
    omega

end numbered

theorem take_drop_around {all : List (List Char)} (found : all[number]? = some line) :
    (all.take (number + 1 + around)).drop (number - around) =
      (all.take number).drop (number - around) ++
        line :: (all.drop (number + 1)).take around := by
  obtain ⟨inside, rfl⟩ := List.getElem?_eq_some_iff.mp found
  rw [Nat.add_assoc, List.take_add, List.drop_eq_getElem_cons inside, Nat.add_comm 1,
    List.take_succ_cons, List.drop_append_of_le_length]
  rw [List.length_take]
  omega

theorem excerptRows_eq_filterMap {all : List (List Char)} (inside : number < all.length)
    (around : Nat) :
    (excerptRows (all.map String.ofList) (number + 1 : Nat) around).map String.toList =
      (all.zipIdx 1).filterMap fun (line, other) =>
        if number - around < other ∧ other ≤ number + 1 + around then
          some (excerptLine (number + 1) line other)
        else none := by
  have meant : min (max 1 ((number + 1 : Nat) : Int)) (all.length : Int) = (number + 1 : Nat) := by
    omega
  rw [excerptRows, List.zipIdx_map, List.filterMap_map, List.map_filterMap, List.length_map, meant]
  refine List.filterMap_congr fun entry member => ?_
  obtain ⟨line, other⟩ := entry
  obtain ⟨above, -, -⟩ := List.mem_zipIdx member
  have same : (((number + 1 : Nat) : Int) - around ≤ other ∧
      (other : Int) ≤ (number + 1 : Nat) + around) ↔
        number - around < other ∧ other ≤ number + 1 + around := by omega
  have marked : ((other : Int) == (number + 1 : Nat)) = decide (other = number + 1) := by
    rw [Bool.eq_iff_iff]
    simp only [beq_iff_eq, decide_eq_true_eq]
    omega
  simp only [Function.comp, Prod.map, id, same, marked]
  split <;> simp [toList_excerptRow, excerptLine]

/-- An excerpt shows the line that is meant, marked, between the lines at most a distance away. -/
theorem map_excerptRows {all : List (List Char)} (found : all[number]? = some line) :
    (excerptRows (all.map String.ofList) (number + 1 : Nat) around).map String.toList =
      shownLines (number - around + 1) ((all.take number).drop (number - around)) ++
        shownLine '>' (number + 1) line ::
          shownLines (number + 2) ((all.drop (number + 1)).take around) := by
  obtain ⟨inside, -⟩ := List.getElem?_eq_some_iff.mp found
  have plain (first : Nat) (items : List (List Char))
      (others : ∀ other, first ≤ other → other < first + items.length → other ≠ number + 1) :
      (items.zipIdx first).map (fun (line, other) => excerptLine (number + 1) line other) =
        shownLines first items := by
    refine List.map_congr_left fun entry member => ?_
    obtain ⟨above, below, -⟩ := List.mem_zipIdx member
    simp only [excerptLine, if_neg (others entry.2 above below)]
  have length : ((all.take number).drop (number - around)).length = number - (number - around) := by
    rw [List.length_drop, List.length_take]
    omega
  have place : number - around + 1 + (number - (number - around)) = number + 1 := by omega
  rw [excerptRows_eq_filterMap inside, filterMap_zipIdx_between _ (by omega) (by omega),
    take_drop_around found, List.zipIdx_append, List.map_append, length, place, List.zipIdx_cons,
    List.map_cons, plain, plain]
  · simp only [excerptLine, if_pos]
  · exact fun other above _ => by omega
  · rw [length]
    exact fun other _ below => by omega

theorem lines_excerpt {text : List Char} (found : (lines text)[number]? = some line)
    (around : Nat) :
    lines (excerpt ((lines text).map String.ofList) (number + 1 : Nat) around).toList =
      shownLines (number - around + 1) (((lines text).take number).drop (number - around)) ++
        shownLine '>' (number + 1) line ::
          shownLines (number + 2) (((lines text).drop (number + 1)).take around) := by
  have whole (line : List Char) (member : line ∈ lines text) := not_mem_of_mem_lines member
  have unfed {first : Nat} {part : List (List Char)} (inside : part ⊆ lines text)
      (row : List Char) (member : row ∈ shownLines first part) : '\n' ∉ row := by
    obtain ⟨⟨line, place⟩, numbered, rfl⟩ := List.mem_map.mp member
    have held : line ∈ part := List.fst_mem_of_mem_zipIdx numbered
    exact not_mem_shownLine (by decide) (whole line (inside held))
  rw [excerpt, String.toList_intercalate, map_excerptRows found]
  refine lines_intercalate (by simp) fun row member => ?_
  rcases List.mem_append.mp member with before | here
  · exact unfed (fun _ held => List.mem_of_mem_take (List.mem_of_mem_drop held)) row before
  · rcases List.mem_cons.mp here with rfl | behind
    · exact not_mem_shownLine (by decide) (whole line (List.mem_of_getElem? found))
    · exact unfed (fun _ held => List.mem_of_mem_drop (List.mem_of_mem_take held)) row behind

end Brainfuck.Text
