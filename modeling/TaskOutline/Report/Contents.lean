import TaskOutline.Outline.Cycles
import TaskOutline.Outline.Walk
import TaskOutline.Text.Unlines

/-! # The table of contents

One line for each node of the outline, under the node above it and two blanks
further in: whether the task is done, its name, and how it stands. When the
table is folded, a node whose children are all done stands for all that lies
under it.
-/
namespace TaskOutline

/-- The box in front of a task. -/
def Status.marker : Status → String
  | .todo => "[ ]"
  | .inProgress => "[~]"
  | .blocked => "[!]"
  | .done => "[x]"

/-- A node can be folded when it has children and all of them are done, whatever
lies under those. -/
def Outline.isFoldable (t : Outline) (n : Node) : Bool :=
  !n.children.isEmpty && (n.children.filterMap t.find?).all Node.isComplete

namespace Contents

/-- The status, and what it waits for or when it is due. -/
def statusText (t : Outline) (g : Dependencies) (n : Node) : String :=
  match n.status, n.deadline with
  | .blocked, _ =>
    match g.blockers t n.id with
    | [] => n.status.text
    | waiting => n.status.text ++ " on " ++ ", ".intercalate (waiting.map fun b => b.id.text)
  | .todo, some deadline => n.status.text ++ " by " ++ deadline.text
  | .inProgress, some deadline => n.status.text ++ " due by " ++ deadline.text
  | status, _ => status.text

/-- The priority, where the node has one. -/
def priorityText (n : Node) : String :=
  match n.priority with
  | some p => ", priority " ++ p.text
  | none => ""

/-- How many of the dependencies are done. Nothing is said for a task without
dependencies, nor for one that is done or whose status names what it waits for. -/
def progressText (t : Outline) (g : Dependencies) (n : Node) : String :=
  if (g.of n.id).isEmpty ∨ n.status = .blocked ∨ n.status = .done then ""
  else
    ", " ++ natText (g.finished t n.id).length ++ "/" ++ natText (g.of n.id).length ++
      " dependencies done"

/-- The line of a node, without the mark of a folded one. -/
def entry (t : Outline) (g : Dependencies) (depth : Nat) (n : Node) : String :=
  String.join (List.replicate depth "  ") ++ "- " ++ n.status.marker ++ " " ++ n.heading ++ ": " ++
    statusText t g n ++ priorityText n ++ progressText t g n

/-- The mark of a folded node. -/
def foldMark (n : Node) : String :=
  " (+" ++ natText n.children.length ++ " folded)"

/-- The lines of the nodes. -/
def entries (t : Outline) (g : Dependencies) (fold : Bool) : List String :=
  let isFolded n := fold && t.isFoldable n
  (t.walk fun n => !isFolded n).map fun (depth, n) =>
    entry t g depth n ++ if isFolded n then foldMark n else ""

/-- The table of contents. -/
def text (t : Outline) (g : Dependencies) (fold : Bool) : String :=
  unlines ("# Table of Contents" :: "" :: entries t g fold)

end Contents

end TaskOutline
