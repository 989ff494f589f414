import TaskOutline.Diagnostic
import TaskOutline.Identifier.IdSet
import TaskOutline.Property.Date
import TaskOutline.Property.Declared
import TaskOutline.Property.Priority
import TaskOutline.Property.Status

/-! # Task records

What one block of a document says about a task. A record keeps what was
declared; the values that follow from the tasks above are found later.
-/
namespace TaskOutline

/-- What a document says about one task. -/
structure Record where
  id : TaskId
  label : Option String
  status : Option Status
  priority : Declared Priority
  deadline : Declared Date
  /-- The tasks that have to be done before this one. -/
  depends : IdSet
  /-- The text under the front matter, as it stands. -/
  notes : String
  /-- The line of the opening fence. -/
  location : Location
deriving DecidableEq

/-- The record that declares an identifier and nothing else. -/
def Record.bare (id : TaskId) (location : Location) : Record where
  id := id
  label := none
  status := none
  priority := .unset
  deadline := .unset
  depends := ∅
  notes := ""
  location := location

/-- The record without its location. -/
def Record.unplaced (r : Record) : Record := { r with location := ⟨"", 0⟩ }

end TaskOutline
