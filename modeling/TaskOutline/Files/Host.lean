import TaskOutline.Files.FileTree

/-! # Hosts

All that a run of the program can see of the world around it.
-/
namespace TaskOutline

/-- What a run can see. -/
structure Host where
  /-- The files. -/
  workspace : Workspace
  /-- Whether there is anything where a path leads. -/
  hasPath : Path → Bool
  /-- The environment. -/
  lookupEnv : String → Option String
  /-- The directory of this program's settings, for a user who has one. -/
  configDir? : Option Path
  /-- The text on standard input, or why there is none. -/
  input : Except String String

/-- A file system as a host. -/
def FileTree.host (t : FileTree) (environment : List (String × String)) (configDir? : Option Path)
    (input : ByteArray) : Host where
  workspace := t.workspace
  hasPath := t.hasPath
  lookupEnv name := (environment.find? fun v => v.1 = name).map Prod.snd
  configDir? := configDir?
  input := (FileTree.decode input).mapError FileFault.message

end TaskOutline
