import TaskOutline.Document.Block
import TaskOutline.Files.Workspace

/-! # Included files

A block that includes files stands for the blocks of those files, and these for
what they include in turn. A file is not expanded inside itself: the places of
the files on the way from the document to a block are kept, and a path that
leads to one of them is an error. Relative paths are looked up in one directory,
whichever file they stand in.
-/
namespace TaskOutline

/-- What a list of blocks asks for, one thing at a time. -/
inductive Step where
  /-- A task is declared. -/
  | task (record : Record)
  /-- A file is included, by a block at this place. -/
  | visit (path : Path) (location : Location)
deriving DecidableEq

/-- The steps of a block. -/
def Block.steps : Block → List Step
  | .task record => [.task record]
  | .inclusion files => files.paths.map fun path => .visit ⟨path⟩ files.location

namespace Workspace

/-- How many places are not on the way to a block. -/
def unvisited (w : Workspace) (way : List Place) : Nat :=
  (w.places.filter fun place => !way.contains place).length

theorem unvisited_lt {w : Workspace} {place : Place} {way : List Place}
    (hp : place ∈ w.places) (hw : place ∉ way) :
    w.unvisited (place :: way) < w.unvisited way := by
  unfold unvisited
  have hsplit : (w.places.filter fun x => !(place :: way).contains x) =
      (w.places.filter fun x => !way.contains x).filter fun x => x ≠ place := by
    rw [List.filter_filter]
    congr 1
    funext x
    by_cases hx : x = place <;> simp [hx]
  rw [hsplit]
  refine List.length_filter_lt_length_iff_exists.mpr ⟨place, ?_, by simp⟩
  simp [hp, hw]

/-- Follows steps in order. `way` has the places of the files that the steps come
from, innermost first, and `dir` is the directory of relative paths. -/
def follow (w : Workspace) (dir : Path) (way : List Place) : List Step → Logged (List Record)
  | [] => return []
  | .task record :: rest => do
    let records ← follow w dir way rest
    return record :: records
  | .visit path location :: rest =>
    let target := dir.join path
    if w.identity target ∈ way then do
      Logged.error location (.cyclicInclude target)
      follow w dir way rest
    else match _read : w.read target with
      | .error reason => do
        Logged.error location (.missingInclude target reason)
        follow w dir way rest
      | .ok text => do
        let blocks ← readDocument target.text text
        let included ← follow w dir (w.identity target :: way) (blocks.flatMap Block.steps)
        let records ← follow w dir way rest
        return included ++ records
termination_by steps => (w.unvisited way, steps.length)
decreasing_by
  · exact Prod.Lex.right _ (Nat.lt_succ_self _)
  · exact Prod.Lex.right _ (Nat.lt_succ_self _)
  · exact Prod.Lex.right _ (Nat.lt_succ_self _)
  · exact Prod.Lex.left _ _ (unvisited_lt (w.identity_mem _read) ‹_›)
  · exact Prod.Lex.right _ (Nat.lt_succ_self _)

/-- The records of blocks with those of the files that they include. The blocks
are those of the file `root`, if they come from a file. -/
def expand (w : Workspace) (dir : Path) (root : Option Path) (blocks : List Block) :
    Logged (List Record) :=
  w.follow dir (root.map w.identity).toList (blocks.flatMap Block.steps)

end Workspace

end TaskOutline
