import TaskOutline.Record

/-! # Nodes

A node of the outline is an identifier, what was declared for it, and where it
stands. An identifier that was not declared itself but lies above one that was
has a node without a record.
-/
namespace TaskOutline

/-- A place of the outline. -/
structure Node where
  id : TaskId
  /-- What was declared, if anything was. -/
  record : Option Record
  /-- The nodes one level down, in order. -/
  children : List TaskId := []
  /-- The priority that holds, once it has been settled. -/
  priority : Option Priority := none
  /-- The deadline that holds, once it has been settled. -/
  deadline : Option Date := none
deriving DecidableEq

namespace Node

/-- A node is implicit when nothing was declared for it. -/
def isImplicit (n : Node) : Bool := n.record.isNone

/-- The label, if one was declared. -/
def label? (n : Node) : Option String := n.record.bind Record.label

/-- The status; a task whose status was not declared is still to be done. -/
def status (n : Node) : Status := (n.record.bind Record.status).getD .todo

/-- Whether the task is done. -/
def isComplete (n : Node) : Bool := n.status.isComplete

/-- The declared dependencies in order. -/
def depends (n : Node) : List TaskId :=
  match n.record with
  | some r => r.depends.toList
  | none => []

/-- The notes; a node without a record has none. -/
def notes (n : Node) : String :=
  match n.record with
  | some r => r.notes
  | none => ""

/-- The line of the opening fence, if the node was declared. -/
def location? (n : Node) : Option Location := n.record.map Record.location

/-- The identifier with the label after it. -/
def heading (n : Node) : String :=
  match n.label? with
  | some label => n.id.text ++ " " ++ label
  | none => n.id.text

end Node

end TaskOutline
