import TaskOutline.Property.Reason
import TaskOutline.Text.Blank

/-! # Status

How far a task has come. A status is read in any ASCII case and written in
capitals.
-/
namespace TaskOutline

/-- How far a task has come; `todo` where nothing is said. -/
inductive Status where
  | todo
  | inProgress
  | blocked
  | done
deriving DecidableEq, Inhabited

namespace Status

/-- Every status. -/
def all : List Status := [.todo, .inProgress, .blocked, .done]

/-- A status as it is written. -/
def text : Status → String
  | .todo => "TODO"
  | .inProgress => "IN-PROGRESS"
  | .blocked => "BLOCKED"
  | .done => "DONE"

instance : ToString Status := ⟨text⟩

/-- A task is complete when it is done. -/
def isComplete (s : Status) : Bool := s == .done

/-- Reads a status, in any ASCII case. -/
def parse (s : String) : Except Reason Status :=
  match all.find? fun status => Text.fold status.text.toList == Text.fold s.toList with
  | some status => .ok status
  | none => .error .unknownStatus

end Status

end TaskOutline
