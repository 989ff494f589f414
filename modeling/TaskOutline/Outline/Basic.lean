import TaskOutline.Outline.Node
import TaskOutline.Outline.Roster

/-! # The outline

The outline of a document has a node for each entry of its roster. A node knows
the nodes one level down, and the outline knows the nodes at the top.
-/
namespace TaskOutline

/-- The tasks of a document by their place. -/
structure Outline where
  /-- The nodes in the order of their identifiers. -/
  nodes : List Node
  /-- The identifiers at the top, in order. -/
  roots : List TaskId
  ascending : Ascending Node.id nodes

namespace Outline

/-- The identifiers of the nodes, in order. -/
def ids (t : Outline) : List TaskId := t.nodes.map Node.id

/-- The node of an identifier. -/
def find? (t : Outline) (id : TaskId) : Option Node :=
  t.nodes.find? fun n => n.id = id

/-- Whether an identifier has a node. -/
def contains (t : Outline) (id : TaskId) : Bool := (t.find? id).isSome

/-- How many nodes there are. -/
def size (t : Outline) : Nat := t.nodes.length

/-- Those of the identifiers that lie directly under one. -/
def childrenOf (ids : List TaskId) (id : TaskId) : List TaskId :=
  ids.filter fun child => child.parent? = some id

/-- The outline of a roster. -/
def ofRoster (s : Roster) : Outline :=
  let ids := s.entries.map Prod.fst
  { nodes := s.entries.map fun (id, record) =>
      { id := id, record := record, children := childrenOf ids id }
    roots := ids.filter fun id => id.parent?.isNone
    ascending := Ascending.congr (by simp) s.ascending }

/-- The outline of these records. Each record that is not the first of its
identifier is reported and left out. -/
def build (records : List Record) : Logged Outline := do
  let s ← Roster.ofRecords records
  return ofRoster s

end Outline

end TaskOutline
