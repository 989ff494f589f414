import TaskOutline.Outline.Basic
import TaskOutline.Text.Unlines

/-! # The listing

Every task with the values that hold for it, its dependencies as they were
declared, and its notes.
-/
namespace TaskOutline.Listing

/-- The word for a value that a task has not. -/
def unassigned : String := "unassigned"

/-- The declared dependencies. -/
def dependencyText (n : Node) : String :=
  match n.depends with
  | [] => "none"
  | ids => ", ".intercalate (ids.map TaskId.text)

/-- The notes of a task, unless they are blank. -/
def notesLines (n : Node) : List String :=
  let notes := trimmed n.notes
  if notes.isEmpty then [] else ["", "### Notes", "", notes]

/-- The lines of a task. -/
def taskLines (n : Node) : List String :=
  ["## " ++ n.heading, "",
    "- Status: " ++ n.status.text,
    "- Priority: " ++ (n.priority.map Priority.text).getD unassigned,
    "- Deadline: " ++ (n.deadline.map Date.text).getD unassigned,
    "- Dependencies: " ++ dependencyText n] ++ notesLines n

/-- The listing of an outline. -/
def text (t : Outline) : String :=
  unlines ("# Tasks" :: t.nodes.flatMap fun n => "" :: taskLines n)

end TaskOutline.Listing
