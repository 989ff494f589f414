import TaskOutline.Outline.Basic

/-! # Inheritance

Priority and deadline pass from a node to the nodes under it. A node that
declares neither a value nor `none` has what its parent has. Parents come
before their children in the order of identifiers, so that one pass in that
order settles every node.
-/
namespace TaskOutline

namespace Node

/-- What the node declares about its priority. -/
def declaredPriority (n : Node) : Declared Priority :=
  match n.record with
  | some r => r.priority
  | none => .unset

/-- What the node declares about its deadline. -/
def declaredDeadline (n : Node) : Declared Date :=
  match n.record with
  | some r => r.deadline
  | none => .unset

/-- The node with the values that hold for it, given its parent with those that
hold there. -/
def settle (parent : Option Node) (n : Node) : Node :=
  { n with
    priority := n.declaredPriority.resolve (parent.bind Node.priority)
    deadline := n.declaredDeadline.resolve (parent.bind Node.deadline) }

/-- Settles nodes in order, given those that are settled already. -/
def settleAll (settled : List Node) : List Node → List Node
  | [] => []
  | n :: rest =>
    let parent := n.id.parent?.bind fun id => settled.find? fun p => p.id = id
    let n := n.settle parent
    n :: settleAll (n :: settled) rest

theorem map_id_settleAll (settled nodes : List Node) :
    (settleAll settled nodes).map Node.id = nodes.map Node.id := by
  induction nodes generalizing settled with
  | nil => rfl
  | cons n rest ih => simp [settleAll, settle, ih]

end Node

/-- The outline with the priority and the deadline of every node settled. -/
def Outline.settle (t : Outline) : Outline :=
  { t with
    nodes := Node.settleAll [] t.nodes
    ascending := Ascending.congr (Node.map_id_settleAll [] t.nodes).symm t.ascending }

end TaskOutline
