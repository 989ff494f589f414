/-! # Lines

A text is a list of lines, each with the newline that ends it; only the last
line may lack one. Joining the lines gives the text back.
-/
namespace TaskOutline.Text

/-- The lines of a text, each with its newline. -/
def lines : List Char → List (List Char)
  | [] => []
  | c :: cs =>
    if c = '\n' then [c] :: lines cs
    else match lines cs with
      | [] => [[c]]
      | l :: ls => (c :: l) :: ls

@[simp] theorem lines_nil : lines [] = [] := rfl

@[simp] theorem lines_newline (cs : List Char) : lines ('\n' :: cs) = ['\n'] :: lines cs := by
  simp [lines]

/-- Nothing is lost when a text is cut into lines. -/
theorem flatten_lines (cs : List Char) : (lines cs).flatten = cs := by
  induction cs with
  | nil => rfl
  | cons c cs ih =>
    by_cases h : c = '\n'
    · simp [lines, h, ih]
    · cases hl : lines cs with
      | nil => simp [lines, h, hl] at ih ⊢; exact ih
      | cons l ls => simp [lines, h, hl] at ih ⊢; exact ih

end TaskOutline.Text
