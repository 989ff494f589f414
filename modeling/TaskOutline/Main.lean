import TaskOutline.Command.Run
import TaskOutline.Files.Snapshot
import TaskOutline.Settings.UserDirs

/-! # The program

Looks at the files that a command line is about, runs it on what was seen, and
looks further as long as a path turns up that has not been looked at.
-/
namespace TaskOutline.Main

/-- The number that the system has for an error. Some calls give it with its sign
turned. -/
def errorNumber (code : UInt32) : Nat :=
  min code.toNat (UInt32.size - code.toNat)

/-- The wording of a system error. -/
def systemMessage (code : UInt32) (details : String) : String :=
  match errorNumber code with
  | 2 => FileFault.notFound.message
  | 20 => FileFault.notADirectory.message
  | 21 => FileFault.isADirectory.message
  | 36 => FileFault.nameTooLong.message
  | 40 => FileFault.tooManyLinks.message
  | number => s!"{details.capitalize} (os error {number})"

/-- Why the system refused something. -/
def reason : IO.Error → String
  | .noFileOrDirectory _ code details => systemMessage code details
  | .inappropriateType _ code details => systemMessage code details
  | .permissionDenied _ code details => systemMessage code details
  | .invalidArgument _ code details => systemMessage code details
  | .resourceExhausted _ code details => systemMessage code details
  | .otherError code details => systemMessage code details
  | e => toString e

/-- The text of bytes, or why they are none. -/
def textOf (bytes : ByteArray) : Except String String :=
  (FileTree.decode bytes).mapError FileFault.message

/-- Looks at a path. -/
def look (path : Path) : IO Sighting := do
  if path.chars.contains '\x00' then
    return ⟨path, .error FileFault.badPath.message, none⟩
  let text ← try pure (textOf (← IO.FS.readBinFile path.text))
    catch e => pure (.error (reason e))
  let found ← try pure (some (Path.mk (← IO.FS.realPath path.text).toString).place)
    catch _ => pure none
  return ⟨path, text, found⟩

/-- All that is left on a stream. -/
partial def readAll (stream : IO.FS.Stream) (bytes : ByteArray) : IO ByteArray := do
  let more ← stream.read 65536
  if more.isEmpty then return bytes else readAll stream (bytes ++ more)

/-- The variables of the environment that a run may ask for. -/
def readEnvironment : IO (List (String × String)) := do
  let mut environment := []
  for name in ["BURRITO_CONFIG", "XDG_CONFIG_HOME", "HOME"] do
    if let some value ← IO.getEnv name then
      environment := (name, value) :: environment
  return environment

/-- A file of the system, or nothing. -/
def readSystemFile (path : String) : IO String := do
  try IO.FS.readFile path catch _ => return ""

/-- The home that the system has on record for the user. -/
def readHomeOnRecord : IO (Option String) := do
  let user := UserDirs.userNumber? (← readSystemFile "/proc/self/status")
  return user.bind (UserDirs.homeOnRecord? (← readSystemFile "/etc/passwd"))

/-- A snapshot in the place of what a host has seen so far. -/
def hostOf (h : Host) (s : Snapshot) : Host :=
  { h with workspace := s.workspace, hasPath := s.hasPath }

/-- Runs a command line, looking at more files until all that turn up have been seen. -/
partial def runSeeing (h : Host) (arguments : List String) (s : Snapshot) : IO Outcome := do
  let outcome := runCommand .usual (hostOf h s) arguments
  match (outcome.refused.filter fun path => !s.has path).eraseDups with
  | [] => return outcome
  | unseen => runSeeing h arguments (s.add (← unseen.mapM look))

/-- Runs the program. -/
def run (arguments : List String) : IO UInt32 := do
  let environment ← readEnvironment
  let lookupEnv name := (environment.find? fun v => v.1 = name).map Prod.snd
  let s : Snapshot := ⟨⟨(← IO.currentDir).toString⟩, []⟩
  let configDir? := UserDirs.configDir? lookupEnv (← readHomeOnRecord)
  let mut h : Host := ⟨s.workspace, s.hasPath, lookupEnv, configDir?, .ok ""⟩
  let mut paths := h.configFile?.toList
  if let .ok i := Readers.usual.arguments lookupEnv arguments then
    paths := (i.config.map Path.mk).toList ++ paths
    if i.input = "-" then
      let bytes ← readAll (← IO.getStdin) .empty
      h := { h with input := textOf bytes }
    else
      paths := ⟨i.input⟩ :: paths
  let outcome ← runSeeing h arguments (s.add (← paths.mapM look))
  (← IO.getStderr).putStr outcome.errors
  (← IO.getStdout).putStr outcome.output
  return UInt32.ofNat outcome.exitCode

end TaskOutline.Main

/-- Runs the program on the arguments of the command line. -/
def main (arguments : List String) : IO UInt32 :=
  TaskOutline.Main.run arguments
