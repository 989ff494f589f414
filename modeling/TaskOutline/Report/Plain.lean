import TaskOutline.Outline.Basic
import TaskOutline.Text.Unlines

/-! # The canonical document

The document written out again: the declared tasks in order, each with what its
block declares and nothing that it inherits. Reading the text gives the same
outline.
-/
namespace TaskOutline

namespace Record

/-- The line of a property, where there is something to write. -/
def propertyLine (key : String) (value : Option String) : List String :=
  (value.map fun v => key ++ " " ++ v).toList

/-- The line of the dependencies, where there are some. -/
def dependsLine (r : Record) : List String :=
  if r.depends.isEmpty then []
  else ["depends " ++ " ".intercalate (r.depends.toList.map TaskId.text)]

/-- The lines between the fences. -/
def frontLines (r : Record) : List String :=
  ["task " ++ r.id.text] ++
    propertyLine "label" r.label ++
    propertyLine "status" (r.status.map Status.text) ++
    propertyLine "priority" (r.priority.text? Priority.text) ++
    propertyLine "deadline" (r.deadline.text? Date.text) ++
    r.dependsLine

/-- The notes with a newline at their end, unless there are none. -/
def closedNotes (r : Record) : String :=
  if r.notes.isEmpty ∨ r.notes.toList.getLast? = some '\n' then r.notes else endLine r.notes

/-- The block that declares a record. -/
def text (r : Record) : String :=
  unlines ("---" :: r.frontLines ++ ["---"]) ++ r.closedNotes

end Record

/-- The records of an outline in order. -/
def Outline.records (t : Outline) : List Record :=
  t.nodes.filterMap Node.record

/-- The canonical document of an outline. -/
def Outline.plainText (t : Outline) : String :=
  String.join (t.records.map Record.text)

end TaskOutline
