import TaskOutline.Path.Basic

/-! # Sources

A text that is to be read as a document, and where it came from.
-/
namespace TaskOutline

/-- A text and where it came from. -/
structure Source where
  text : String
  /-- The file that holds the text. A text from standard input has none. -/
  path : Option Path := none
  /-- The directory that included files are looked up in, if it is given. -/
  baseDir : Option Path := none
deriving DecidableEq, Inhabited

namespace Source

/-- The name of the text in diagnostics. -/
def origin (s : Source) : String :=
  match s.path with
  | some path => path.text
  | none => "<stdin>"

/-- The directory that included files are looked up in: the one that is given,
else the one that the file is in, else the working directory. -/
def includeDir (s : Source) (workingDir : Path) : Path :=
  match s.baseDir, s.path.bind Path.parent? with
  | some dir, _ => dir
  | none, some dir => if dir.text.isEmpty then workingDir else dir
  | none, none => workingDir

end Source

end TaskOutline
