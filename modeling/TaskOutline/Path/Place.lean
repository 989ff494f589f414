import TaskOutline.Path.Basic

/-! # Where a path leads, by its text alone

Two spellings of a path are taken to be the same place when their components,
followed one by one, leave the same names. Nothing is looked up: a step up
takes back the name before it, whether or not that name is a link. Where there
is no name to take back, the step up is kept as a name of its own, which a
further step up takes back in turn.
-/
namespace TaskOutline

/-- A path with its steps worked out. -/
structure Place where
  /-- Whether it is counted from the top of the file system. -/
  absolute : Bool
  /-- The names on the way, from the start. -/
  names : List String
deriving DecidableEq, Inhabited

namespace Place

/-- Follows one step. The names are given last name first. -/
def follow (names : List String) : Component → List String
  | .root => names
  | .here => names
  | .up => match names with
    | [] => [".."]
    | _ :: rest => rest
  | .name text => text :: names

/-- A place as a path. -/
def text (p : Place) : String :=
  (if p.absolute then "/" else "") ++ "/".intercalate p.names

end Place

/-- The place where a path leads. -/
def Path.place (p : Path) : Place :=
  ⟨p.isAbsolute, (p.components.foldl Place.follow []).reverse⟩

end TaskOutline
