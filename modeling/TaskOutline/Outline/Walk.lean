import TaskOutline.Outline.Basic

/-! # Walking the outline

A walk visits a node, then, where it is told to go down, the nodes under it,
each with all that is under it in turn.
-/
namespace TaskOutline.Outline

/-- How many levels the outline has. -/
def height (t : Outline) : Nat :=
  (t.nodes.map fun n => n.id.segments.length).foldr max 0

/-- The walk from one node on, over at most `levels` levels. Each node comes with
its depth. -/
def walkFrom (t : Outline) (descend : Node → Bool) :
    (levels depth : Nat) → TaskId → List (Nat × Node)
  | 0, _, _ => []
  | levels + 1, depth, id =>
    match t.find? id with
    | none => []
    | some n =>
      (depth, n) ::
        if descend n then n.children.flatMap (walkFrom t descend levels (depth + 1)) else []

/-- The walk through the outline that goes down where `descend` holds. -/
def walk (t : Outline) (descend : Node → Bool) : List (Nat × Node) :=
  t.roots.flatMap (walkFrom t descend t.height 0)

end TaskOutline.Outline
