import TaskOutline.Files.FileTree

/-! # Snapshots

What has been seen of files by looking at their paths, one by one. A snapshot is
a workspace: a path that has not been looked at cannot be read, and leads where it
spells.
-/
namespace TaskOutline

/-- What was seen at a path. -/
structure Sighting where
  path : Path
  /-- The text of the file, or why it cannot be read. -/
  text : Except String String
  /-- Where the path leads, if there is something. -/
  found : Option Place

/-- Where a sighting says that its path leads. -/
def Sighting.place (s : Sighting) : Place := s.found.getD s.path.place

/-- What has been seen so far. -/
structure Snapshot where
  workingDir : Path
  sightings : List Sighting

namespace Snapshot

/-- What was seen at a path. -/
def find? (s : Snapshot) (path : Path) : Option Sighting :=
  s.sightings.find? fun sighting => sighting.path = path

/-- Whether a path has been looked at. -/
def has (s : Snapshot) (path : Path) : Bool := (s.find? path).isSome

/-- Whether something was seen at a path that can be opened. -/
def hasPath (s : Snapshot) (path : Path) : Bool :=
  match s.find? path with
  | some sighting =>
    sighting.found.isSome && path.text.utf8ByteSize < FileTree.maxPathBytes
  | none => false

/-- What is said of a path that has not been looked at. -/
def notSeen : String := "not looked at"

/-- The text of a file. -/
def read (s : Snapshot) (path : Path) : Except String String :=
  match s.find? path with
  | some sighting => sighting.text
  | none => .error notSeen

/-- Where a path leads. -/
def identity (s : Snapshot) (path : Path) : Place :=
  match s.find? path with
  | some sighting => sighting.place
  | none => path.place

theorem identity_mem {s : Snapshot} {path : Path} {text : String} (h : s.read path = .ok text) :
    s.identity path ∈ s.sightings.map Sighting.place := by
  unfold read at h
  unfold identity
  split at h
  · rename_i sighting hs
    exact List.mem_map.mpr ⟨sighting, List.mem_of_find?_eq_some hs, rfl⟩
  · cases h

/-- The workspace of what has been seen. -/
def workspace (s : Snapshot) : Workspace where
  workingDir := s.workingDir
  read := s.read
  identity := s.identity
  places := s.sightings.map Sighting.place
  identity_mem := identity_mem

/-- A snapshot with more sightings. -/
def add (s : Snapshot) (sightings : List Sighting) : Snapshot :=
  { s with sightings := s.sightings ++ sightings }

end Snapshot

end TaskOutline
