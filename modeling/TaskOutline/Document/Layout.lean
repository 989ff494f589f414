import TaskOutline.Text.Blank
import TaskOutline.Text.Lines

/-! # The layout of a document

A line that reads `---` is a fence. Fences come in pairs: the lines between the
two fences of a pair are a front matter, the lines after the pair are the notes
under it, up to the next pair. The lines before the first fence belong to
nothing, and a fence without a partner leaves the document unterminated.
-/
namespace TaskOutline

/-- A line is a fence when it reads `---` but for blanks around it. -/
def isFence (line : List Char) : Bool :=
  Text.trim line == ['-', '-', '-']

/-- A front matter and the notes under it. -/
structure Section where
  /-- The number of the line with the opening fence. -/
  line : Nat
  /-- The lines between the fences. -/
  front : List (List Char)
  /-- The lines after the closing fence. -/
  notes : List (List Char)
deriving DecidableEq

/-- The parts of a document. -/
structure Layout where
  /-- The lines before the first fence. -/
  lead : List (List Char)
  sections : List Section
  /-- The number of the line with a fence that has no partner. -/
  unterminated : Option Nat
deriving DecidableEq

namespace Layout

mutual

/-- Lays out lines of which the first, number `n`, is outside any front matter. -/
def outside (n : Nat) : List (List Char) → Layout
  | [] => ⟨[], [], none⟩
  | line :: rest =>
    if isFence line then
      match inside (n + 1) rest with
      | (front, some after) =>
        ⟨[], ⟨n, front, after.lead⟩ :: after.sections, after.unterminated⟩
      | (_, none) => ⟨[], [], some n⟩
    else
      let after := outside (n + 1) rest
      ⟨line :: after.lead, after.sections, after.unterminated⟩

/-- Lays out lines of which the first, number `n`, is inside a front matter: the
lines up to the closing fence, and what follows it if there is one. -/
def inside (n : Nat) : List (List Char) → List (List Char) × Option Layout
  | [] => ([], none)
  | line :: rest =>
    if isFence line then ([], some (outside (n + 1) rest))
    else
      let (front, after) := inside (n + 1) rest
      (line :: front, after)

end

/-- The layout of a text. -/
def ofText (text : String) : Layout :=
  outside 1 (Text.lines text.toList)

end Layout

/-- The notes of a section as one text. -/
def Section.notesText (s : Section) : String :=
  String.ofList s.notes.flatten

end TaskOutline
