import TaskOutline.Path.Place

/-! # Workspaces

What a document can reach while it is read: the texts of files by path, and for
each path the place that tells whether two paths lead to the same file. Only
finitely many places hold a file.
-/
namespace TaskOutline

/-- The files that can be read. -/
structure Workspace where
  /-- The directory that a path is relative to when nothing else is said. -/
  workingDir : Path
  /-- The text of a file, or why it cannot be read. -/
  read : Path → Except String String
  /-- The place where a path leads. -/
  identity : Path → Place
  /-- The places that hold a file. -/
  places : List Place
  identity_mem : ∀ {path : Path} {text : String}, read path = .ok text → identity path ∈ places

/-- Files that are held in memory, by the places where their paths lead. -/
structure Shelf where
  files : List (Place × String)

namespace Shelf

/-- The shelf without files. -/
def empty : Shelf := ⟨[]⟩

/-- Puts a file on the shelf, in place of the one whose path leads there too. -/
def insert (s : Shelf) (path : Path) (text : String) : Shelf :=
  ⟨(path.place, text) :: s.files.filter fun file => file.1 ≠ path.place⟩

/-- The shelf with these files, put there from the first on. -/
def ofList (files : List (Path × String)) : Shelf :=
  files.foldl (fun s (path, text) => s.insert path text) empty

/-- What is said of a file that is not on the shelf. -/
def notFound : String := "No such file or directory"

/-- The text of a file. -/
def read (s : Shelf) (path : Path) : Except String String :=
  match s.files.find? fun file => file.1 = path.place with
  | some file => .ok file.2
  | none => .error notFound

theorem place_mem {s : Shelf} {path : Path} {text : String} (h : s.read path = .ok text) :
    path.place ∈ s.files.map Prod.fst := by
  unfold read at h
  split at h
  · rename_i file hf
    have hplace : file.1 = path.place := by simpa using List.find?_some hf
    exact List.mem_map.mpr ⟨file, List.mem_of_find?_eq_some hf, hplace⟩
  · cases h

/-- The workspace in which the files on the shelf can be read. -/
def workspace (s : Shelf) (workingDir : Path) : Workspace where
  workingDir := workingDir
  read := s.read
  identity := Path.place
  places := s.files.map Prod.fst
  identity_mem := place_mem

end Shelf

end TaskOutline
