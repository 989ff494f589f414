import TaskOutline.Outline.Basic

/-! # Dependencies

Which tasks have to be done before which. The dependencies make a graph: every
node of the outline is entered under an index, and then every reference of a
record as an edge, which leads from the task that is named to the one that names
it. So the dependencies of a task lie against the edges. A dependency on a task
that does not exist is reported and left out; a node without a record exists.
-/
namespace TaskOutline

/-- The dependencies of the nodes of an outline. -/
structure Dependencies where
  /-- The nodes by their index. -/
  ids : List TaskId
  /-- The index of each node. -/
  index : List (TaskId × Nat)
  /-- The edges by the indices of their ends, from a task to one that depends on it. -/
  edges : List (Nat × Nat)
  indexed : ∀ entry ∈ index, ids[entry.2]? = some entry.1

namespace Dependencies

/-- A graph without nodes. -/
def empty : Dependencies := ⟨[], [], [], by simp⟩

/-- How many nodes there are. -/
def size (g : Dependencies) : Nat := g.index.length

/-- The index of a node. -/
def index? (g : Dependencies) (id : TaskId) : Option Nat :=
  (g.index.find? fun entry => entry.1 = id).map Prod.snd

/-- Adds a node, whose index is the next one. -/
def addNode (g : Dependencies) (id : TaskId) : Dependencies where
  ids := g.ids ++ [id]
  index := (id, g.ids.length) :: g.index.filter fun entry => entry.1 ≠ id
  edges := g.edges
  indexed := by
    intro entry h
    rcases List.mem_cons.mp h with rfl | h
    · simp
    · have hentry := g.indexed entry (List.mem_filter.mp h).1
      rwa [List.getElem?_append_left (List.getElem?_eq_some_iff.mp hentry).1]

/-- Adds an edge between two indices. -/
def addEdge (g : Dependencies) (tail head : Nat) : Dependencies :=
  { g with edges := g.edges ++ [(tail, head)] }

/-- Adds the edge of a reference in the record of a node. The node itself has been
added before. -/
def addReference (n : Node) (g : Dependencies) (id : TaskId) : Logged Dependencies :=
  match g.index? id, g.index? n.id with
  | some tail, some head => return g.addEdge tail head
  | some _, none => return g
  | none, _ => do
    Logged.report .error n.location? (.missingDependency n.id id)
    return g

/-- The dependencies of an outline: first all nodes are added, then their references. -/
def ofOutline (t : Outline) : Logged Dependencies :=
  t.nodes.foldlM (fun g n => n.depends.foldlM (addReference n) g) (t.ids.foldl addNode empty)

/-- The indices that an edge leads from to a given one. -/
def incoming (g : Dependencies) (head : Nat) : List Nat :=
  (g.edges.filter fun edge => edge.2 = head).map Prod.fst

/-- The nodes of some indices, in order and none twice. -/
def sorted (g : Dependencies) (indices : List Nat) : List TaskId :=
  ((indices.filterMap fun i => g.ids[i]?).mergeSort fun a b => !decide (b < a)).eraseReps

/-- The nodes that a task depends on, in order. A task without a node depends on
none. -/
def of (g : Dependencies) (id : TaskId) : List TaskId :=
  match g.index? id with
  | some i => g.sorted (g.incoming i)
  | none => []

/-- The nodes that a task waits for: those that it depends on and that are not
done. -/
def blockers (g : Dependencies) (t : Outline) (id : TaskId) : List Node :=
  ((g.of id).filterMap t.find?).filter fun n => !n.isComplete

/-- The nodes that a task depends on and that are done. -/
def finished (g : Dependencies) (t : Outline) (id : TaskId) : List Node :=
  ((g.of id).filterMap t.find?).filter fun n => n.isComplete

end Dependencies

end TaskOutline
