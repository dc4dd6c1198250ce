namespace Brainfuck.Text

/-- A number with blanks before it up to the width; a longer number keeps all
its digits. -/
def rightAligned (width : Nat) (value : Int) : String :=
  String.ofList ((toString value).toList.leftpad width ' ')

theorem length_rightAligned (width : Nat) (value : Int) :
    (rightAligned width value).length = max width (toString value).length := by
  simp only [rightAligned, String.length_ofList, List.leftpad, List.length_append,
    List.length_replicate, String.length_toList]
  omega

end Brainfuck.Text
