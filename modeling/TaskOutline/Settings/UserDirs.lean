import TaskOutline.Path.Basic

/-! # Directories of the user

Where a user keeps the settings of programs: in the directory that the environment
names for them, else in the usual one at home. Home is where the environment says,
else where the system has it on record.
-/
namespace TaskOutline.UserDirs

variable (lookupEnv : String → Option String) (onRecord : Option String)

/-- The user's home. -/
def home? : Option String :=
  ((lookupEnv "HOME").filter fun home => !home.isEmpty).or
    (onRecord.filter fun home => !home.isEmpty)

/-- The directory of this program's settings. The environment is heard if it names an
absolute path, and only for a user who has a home. -/
def configDir? : Option Path := do
  let home ← home? lookupEnv onRecord
  let named := ((lookupEnv "XDG_CONFIG_HOME").map Path.mk).filter Path.isAbsolute
  return (named.getD (Path.join ⟨home⟩ ⟨".config"⟩)).join ⟨"task-burrito"⟩

/-- The home that a table of users has on record for one, by the number of the user. -/
def homeOnRecord? (table : String) (user : String) : Option String :=
  (table.splitOn "\n").findSome? fun line =>
    match line.splitOn ":" with
    | [_, _, number, _, _, home, _] => if number = user then some home else none
    | _ => none

/-- The number of the user in the status of a process. -/
def userNumber? (status : String) : Option String :=
  (status.splitOn "\n").findSome? fun line =>
    match line.splitOn "\t" with
    | "Uid:" :: number :: _ => some number
    | _ => none

end TaskOutline.UserDirs
