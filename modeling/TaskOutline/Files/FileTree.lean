import TaskOutline.Files.Workspace

/-! # File systems

Directories, files and symbolic links by their names from the top, and how a
path is followed through them. Unlike a place, which is read off a path, what is
found here depends on what exists: every name but the last has to be a
directory, and a link leads elsewhere.
-/
namespace TaskOutline

/-- Why a file cannot be read. -/
inductive FileFault where
  | notFound
  | notADirectory
  | isADirectory
  | tooManyLinks
  | nameTooLong
  /-- The path has a character that no path can have. -/
  | badPath
  /-- The file holds something else than text. -/
  | notText
deriving DecidableEq

/-- The wording of a fault, with the number that the system has for it. -/
def FileFault.message : FileFault → String
  | .notFound => "No such file or directory (os error 2)"
  | .notADirectory => "Not a directory (os error 20)"
  | .isADirectory => "Is a directory (os error 21)"
  | .tooManyLinks => "Too many levels of symbolic links (os error 40)"
  | .nameTooLong => "File name too long (os error 36)"
  | .badPath => "file name contained an unexpected NUL byte"
  | .notText => "stream did not contain valid UTF-8"

/-- What a name stands for. -/
inductive FileNode where
  | directory
  | file (bytes : ByteArray)
  | link (target : Path)

/-- A file system, and the directory where relative paths begin. Names are given from
the top; the top itself is always a directory. -/
structure FileTree where
  workingDir : List String
  nodes : List (List String × FileNode)

namespace FileTree

/-- The most bytes that a name may have. -/
def maxNameBytes : Nat := 255

/-- Fewer bytes than this a path must have to be opened. -/
def maxPathBytes : Nat := 4096

/-- How many links may be followed for one path. -/
def maxLinks : Nat := 40

/-- What is found under names. -/
def find? (t : FileTree) (names : List String) : Option FileNode :=
  if names = [] then some .directory
  else (t.nodes.find? fun node => node.1 = names).map Prod.snd

/-- Puts a node under names, in place of the one there. -/
def put (t : FileTree) (names : List String) (node : FileNode) : FileTree :=
  { t with nodes := (names, node) :: t.nodes.filter fun other => other.1 ≠ names }

/-- Makes the directories on the way to names, as far as there are none. -/
def makeParents (t : FileTree) (names : List String) : FileTree :=
  (List.range names.length).foldl
    (fun t k =>
      let above := names.take k
      if (t.find? above).isSome then t else t.put above .directory) t

/-- The file system with nothing in it but the working directory. -/
def empty (workingDir : List String) : FileTree :=
  let t : FileTree := ⟨workingDir, []⟩
  (t.makeParents workingDir).put workingDir .directory

/-- Puts a node at a path, which is taken to be relative to the working directory
and to lead through no links, with the directories on the way. -/
def insert (t : FileTree) (path : Path) (node : FileNode) : FileTree :=
  let names := t.workingDir ++ path.place.names
  (t.makeParents names).put names node

/-- The steps of a path as the system takes them: in contrast to `Path.components`,
an empty name and `.` ask whether one is in a directory. -/
def steps (path : Path) : List Component :=
  (path.chars.splitOn '/').map fun piece => (Path.step? piece).getD .here

/-- The way up from names. The top lies above itself. -/
def above (names : List String) : List String := names.dropLast

/-- Whether names lead to a directory. -/
def isDirectory (t : FileTree) (names : List String) : Bool :=
  match t.find? names with
  | some .directory => true
  | _ => false

/-- Follows steps from a node on, along at most `links` links. -/
def follow (t : FileTree) (links : Nat) (names : List String) :
    List Component → Except FileFault (List String)
  | [] => .ok names
  | step :: rest =>
    if !t.isDirectory names then .error .notADirectory
    else match step with
      | .root => follow t links [] rest
      | .here => follow t links names rest
      | .up => follow t links (above names) rest
      | .name name =>
        if maxNameBytes < name.utf8ByteSize then .error .nameTooLong
        else match t.find? (names ++ [name]) with
          | none => .error .notFound
          | some (.link target) =>
            match links with
            | 0 => .error .tooManyLinks
            | links + 1 =>
              follow t links (if target.isAbsolute then [] else names) (steps target ++ rest)
          | some _ => follow t links (names ++ [name]) rest
termination_by todo => (links, todo.length)

/-- The names where a path leads, links followed. The path is taken name by name, so
that its text may be of any length. -/
def trace (t : FileTree) (path : Path) : Except FileFault (List String) :=
  if path.text.isEmpty then .error .notFound
  else if path.chars.contains '\x00' then .error .badPath
  else t.follow maxLinks (if path.isAbsolute then [] else t.workingDir) (steps path)

/-- The names that are opened for a path, which is handed over as one text. -/
def resolve (t : FileTree) (path : Path) : Except FileFault (List String) :=
  match t.trace path with
  | .error .badPath => .error .badPath
  | found => if maxPathBytes ≤ path.text.utf8ByteSize then .error .nameTooLong else found

theorem trace_of_resolve {t : FileTree} {path : Path} {names : List String}
    (h : t.resolve path = .ok names) : t.trace path = .ok names := by
  unfold resolve at h
  split at h
  · cases h
  · split at h
    · cases h
    · exact h

/-- Whether there is anything where a path leads. -/
def hasPath (t : FileTree) (path : Path) : Bool := (t.resolve path).isOk

/-- The text of bytes in UTF-8. -/
def decode (bytes : ByteArray) : Except FileFault String :=
  match String.fromUTF8? bytes with
  | some text => .ok text
  | none => .error .notText

/-- The text of a file. -/
def readText (t : FileTree) (path : Path) : Except FileFault String :=
  match t.resolve path with
  | .error fault => .error fault
  | .ok names =>
    match t.find? names with
    | some (.file bytes) => decode bytes
    | some .directory => .error .isADirectory
    | _ => .error .notFound

/-- Where a path leads: the names that are found, or the place that the path spells if
nothing is found. A path that is too long to be opened leads somewhere all the same. -/
def identity (t : FileTree) (path : Path) : Place :=
  match t.trace path with
  | .ok names => ⟨true, names⟩
  | .error _ => path.place

theorem identity_mem {t : FileTree} {path : Path} {text : String}
    (h : t.readText path = .ok text) :
    t.identity path ∈ t.nodes.map fun node => (⟨true, node.1⟩ : Place) := by
  unfold readText at h
  split at h
  · cases h
  · rename_i names hr
    split at h
    · rename_i bytes hf
      unfold identity
      rw [trace_of_resolve hr]
      unfold find? at hf
      split at hf
      · cases hf
      · obtain ⟨node, hn, _⟩ := Option.map_eq_some_iff.mp hf
        have hnames : node.1 = names := by simpa using List.find?_some hn
        exact List.mem_map.mpr ⟨node, List.mem_of_find?_eq_some hn, by rw [hnames]⟩
    · cases h
    · cases h

/-- The workspace in which the files of a file system can be read. -/
def workspace (t : FileTree) : Workspace where
  workingDir := ⟨(Place.mk true t.workingDir).text⟩
  read path := (t.readText path).mapError FileFault.message
  identity := t.identity
  places := t.nodes.map fun node => ⟨true, node.1⟩
  identity_mem {path text} h := by
    suffices hread : t.readText path = .ok text from identity_mem hread
    cases hr : t.readText path with
    | error fault => rw [hr] at h; cases h
    | ok s => rw [hr] at h; cases h; rfl

end FileTree

end TaskOutline
