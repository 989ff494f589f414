import TaskOutline.Files.Host
import TaskOutline.Settings.Config

/-! # The configuration file

Where the configuration is looked for. A file that is named has to be there; the
file in the user's own directory need not be. How the text of a file is understood
is left to a reader of configurations.
-/
namespace TaskOutline

/-- Why the configuration cannot be loaded. -/
inductive ConfigFault where
  | unreadable (path : Path) (reason : String)
  | invalid (path : Path) (reason : String)
deriving DecidableEq

/-- The wording of a fault, from the outermost cause inwards. -/
def ConfigFault.message : ConfigFault → String
  | .unreadable path reason => "Failed to read config: " ++ path.text ++ ": " ++ reason
  | .invalid path reason =>
    "Failed to parse config: " ++ path.text ++ ": Failed to parse configuration: " ++ reason

namespace Host

/-- The user's configuration file, whether it is there or not. -/
def configFile? (h : Host) : Option Path :=
  h.configDir?.map fun dir => dir.join ⟨"config.toml"⟩

/-- The configuration in a file. -/
def readConfig (h : Host) (read : String → Except String Config) (path : Path) :
    Except ConfigFault Config :=
  match h.workspace.read path with
  | .error reason => .error (.unreadable path reason)
  | .ok text => (read text).mapError (.invalid path)

/-- The configuration: that of the file that is named, else that of the user's file,
else the one in which nothing is settled. -/
def loadConfig (h : Host) (read : String → Except String Config) (named : Option Path) :
    Except ConfigFault Config :=
  match named, h.configFile? with
  | some path, _ => h.readConfig read path
  | none, some path => if h.hasPath path then h.readConfig read path else .ok {}
  | none, none => .ok {}

end Host

end TaskOutline
