import Mathlib.Data.Nat.Digits.Defs
import Mathlib.Data.List.Basic
import Brainfuck.Text.Field

namespace Brainfuck.Text

theorem length_rightAligned_eq_iff {width : Nat} (positive : 0 < width) (number : Nat) :
    (rightAligned width number).length = width ↔ number < 10 ^ width := by
  have digits : (toString (number : Int)).length = (Nat.toDigits 10 number).length := by
    rw [← String.length_toList]
    exact congrArg List.length Nat.toList_repr
  rw [length_rightAligned, digits, ← Nat.length_toDigits_le_iff (by decide) positive]
  omega

structure Row where
  label : String
  separator : String
  fields : List String
  closing : String := ""

namespace Row

variable {row other : Row} {field : String} {place width column : Nat} {mark : Char}

def text (row : Row) : String :=
  row.label ++ row.separator.intercalate row.fields ++ row.closing

def front (row : Row) (place : Nat) : String :=
  row.label ++ String.join ((row.fields.take place).map (· ++ row.separator))

def rest (row : Row) (place : Nat) : String :=
  String.join ((row.fields.drop (place + 1)).map (row.separator ++ ·)) ++ row.closing

/-- The columns of a field: the first one, and the first one behind it. -/
def columns (row : Row) (place : Nat) : Nat × Nat :=
  ((row.front place).length, (row.front place).length + (row.fields.getD place "").length)

theorem intercalate_cons (separator field : String) (fields : List String) :
    separator.intercalate (field :: fields) =
      field ++ String.join (fields.map (separator ++ ·)) := by
  induction fields generalizing field with
  | nil => simp
  | cons next fields ih =>
    rw [String.intercalate_cons_cons, ih, List.map_cons, String.join_cons]
    simp only [String.append_assoc]

theorem intercalate_append_cons (separator field : String) (before behind : List String) :
    separator.intercalate (before ++ field :: behind) =
      String.join (before.map (· ++ separator)) ++ field ++
        String.join (behind.map (separator ++ ·)) := by
  induction before with
  | nil => simp [intercalate_cons]
  | cons first before ih =>
    rw [List.cons_append, String.intercalate_cons_of_ne_nil (by simp), ih, List.map_cons,
      String.join_cons]
    simp only [String.append_assoc]

theorem text_eq (found : row.fields[place]? = some field) :
    row.text = row.front place ++ field ++ row.rest place := by
  obtain ⟨inside, same⟩ := List.getElem?_eq_some_iff.mp found
  have fields : row.fields = row.fields.take place ++ field :: row.fields.drop (place + 1) := by
    rw [← same, ← List.drop_eq_getElem_cons inside, List.take_append_drop]
  have joined := congrArg row.separator.intercalate fields
  rw [intercalate_append_cons] at joined
  rw [text, joined, front, rest]
  simp only [String.append_assoc]

theorem columns_eq (found : row.fields[place]? = some field) :
    row.columns place =
      ((row.front place).length, (row.front place).length + field.length) := by
  rw [columns, List.getD_eq_getElem?_getD, found]
  rfl

theorem extract_columns (found : row.fields[place]? = some field) :
    row.text.toList.extract (row.columns place).1 (row.columns place).2 = field.toList := by
  rw [columns_eq found, text_eq found, List.extract_eq_take_drop, String.append_assoc,
    String.toList_append, String.toList_append, Nat.add_sub_cancel_left,
    List.drop_left' String.length_toList, List.take_left' String.length_toList]

theorem length_front (row : Row) (place : Nat) :
    (row.front place).length = row.label.length +
      ((row.fields.take place).map fun field => field.length + row.separator.length).sum := by
  rw [front, String.length_append, String.length_join, List.map_map]
  congr 3
  funext field
  exact String.length_append field row.separator

theorem length_front_succ (found : row.fields[place]? = some field) :
    (row.front (place + 1)).length =
      (row.front place).length + (field.length + row.separator.length) := by
  obtain ⟨inside, rfl⟩ := List.getElem?_eq_some_iff.mp found
  rw [length_front, length_front, List.take_succ_eq_append_getElem inside, List.map_append,
    List.sum_append, List.map_singleton, List.sum_singleton, Nat.add_assoc]

/-- Behind fields of one width a field stands where it does behind any others of that width. -/
theorem length_front_of_width (inside : place ≤ row.fields.length)
    (even : ∀ field ∈ row.fields.take place, field.length = width) :
    (row.front place).length =
      row.label.length + place * (width + row.separator.length) := by
  have same : (row.fields.take place).map (fun field => field.length + row.separator.length) =
      List.replicate place (width + row.separator.length) := by
    rw [List.eq_replicate_iff]
    refine ⟨by simpa using inside, fun length member => ?_⟩
    obtain ⟨field, found, rfl⟩ := List.mem_map.mp member
    rw [even field found]
  rw [length_front, same, List.sum_replicate_nat]

theorem columns_of_width (inside : place < row.fields.length)
    (even : ∀ field ∈ row.fields.take (place + 1), field.length = width) :
    row.columns place =
      (row.label.length + place * (width + row.separator.length),
        row.label.length + place * (width + row.separator.length) + width) := by
  have found := List.getElem?_eq_getElem inside
  have last : row.fields[place] ∈ row.fields.take (place + 1) := by
    rw [List.take_succ_eq_append_getElem inside]
    exact List.mem_append_right _ List.mem_cons_self
  have earlier : ∀ field ∈ row.fields.take place, field.length = width := fun field member =>
    even field (List.take_subset_take_left _ (Nat.le_succ place) member)
  rw [columns_eq found, length_front_of_width (Nat.le_of_lt inside) earlier, even _ last]

theorem getElem?_eq_mark_iff {front rest : List Char} (before : mark ∉ front)
    (behind : mark ∉ rest) :
    (front ++ mark :: rest)[column]? = some mark ↔ column = front.length := by
  constructor
  · intro found
    rcases Nat.lt_trichotomy column front.length with left | same | right
    · rw [List.getElem?_append_left left] at found
      exact absurd (List.mem_of_getElem? found) before
    · exact same
    · obtain ⟨distance, rfl⟩ := Nat.exists_eq_add_of_lt right
      rw [List.getElem?_append_right (by omega), Nat.add_assoc, Nat.add_sub_cancel_left,
        List.getElem?_cons_succ] at found
      exact absurd (List.mem_of_getElem? found) behind
  · rintro rfl
    rw [List.getElem?_append_right (Nat.le_refl _), Nat.sub_self, List.getElem?_cons_zero]

/-- A character stands in the row only where it stands in a field. -/
structure Clear (row : Row) (mark : Char) : Prop where
  label : mark ∉ row.label.toList
  separator : mark ∉ row.separator.toList
  closing : mark ∉ row.closing.toList

namespace Clear

variable (clear : row.Clear mark)
include clear

theorem not_mem_front (free : ∀ field ∈ row.fields.take place, mark ∉ field.toList) :
    mark ∉ (row.front place).toList := by
  rw [front, String.toList_append, String.toList_join, List.mem_append, not_or]
  refine ⟨clear.label, fun member => ?_⟩
  simp only [List.flatMap_map, List.mem_flatMap, String.toList_append, List.mem_append] at member
  obtain ⟨field, found, member⟩ := member
  exact member.elim (free field found) clear.separator

theorem not_mem_rest (free : ∀ field ∈ row.fields.drop (place + 1), mark ∉ field.toList) :
    mark ∉ (row.rest place).toList := by
  rw [rest, String.toList_append, String.toList_join, List.mem_append, not_or]
  refine ⟨fun member => ?_, clear.closing⟩
  simp only [List.flatMap_map, List.mem_flatMap, String.toList_append, List.mem_append] at member
  obtain ⟨field, found, member⟩ := member
  exact member.elim clear.separator (free field found)

theorem not_mem_text (free : ∀ field ∈ row.fields, mark ∉ field.toList) :
    mark ∉ row.text.toList := by
  cases fields : row.fields with
  | nil =>
    rw [text, fields]
    simpa using ⟨clear.label, clear.closing⟩
  | cons field fields' =>
    have found : row.fields[0]? = some field := by rw [fields]; rfl
    rw [text_eq found, String.toList_append, String.toList_append, List.mem_append,
      List.mem_append, not_or, not_or]
    exact ⟨⟨clear.not_mem_front fun other member => free other (List.mem_of_mem_take member),
        free field (List.mem_of_getElem? found)⟩,
      clear.not_mem_rest fun other member => free other (List.mem_of_mem_drop member)⟩

end Clear
end Row
end Brainfuck.Text
