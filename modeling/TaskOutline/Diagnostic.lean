import TaskOutline.Identifier.Text
import TaskOutline.Path.Basic
import TaskOutline.Property.Reason

/-! # Diagnostics

What is reported about a document: a problem, how severe it is, and where it
was found. A problem is kept as its cause; `Problem.message` is its wording and
`Problem.kind` the class it belongs to.
-/
namespace TaskOutline

/-- A line of a text. -/
structure Location where
  /-- The name of the text: the path of a file, or `<stdin>`. -/
  origin : String
  /-- Lines are counted from one. -/
  line : Nat
deriving DecidableEq

/-- A location as it is written. -/
def Location.text (l : Location) : String :=
  l.origin ++ ":" ++ natText l.line

/-- How the form of a document is broken. -/
inductive Fault where
  /-- A front matter without its closing fence. -/
  | unterminated
  /-- A block that both includes files and declares a task. -/
  | mixedBlock
  /-- A property that a block declares twice. -/
  | duplicateProperty (key : String)
  /-- A block that names no task. -/
  | missingTask
  /-- A document without tasks. -/
  | noTasks (origin : String)
  /-- A fault that a caller gives in its own words. -/
  | other (text : String)
deriving DecidableEq

/-- The wording of a fault. -/
def Fault.message : Fault → String
  | .unterminated => "Unterminated front matter: no closing --- before end of input"
  | .mixedBlock => "Include blocks cannot declare task properties"
  | .duplicateProperty key => "Duplicate property '" ++ key ++ "' not allowed in task block"
  | .missingTask => "Task block must have a 'task' property"
  | .noTasks origin => origin ++ " contains no tasks"
  | .other text => text

/-- A passage of a document that is passed over. -/
inductive Passage where
  /-- Text before the first block. -/
  | preamble
  /-- A blank line in a front matter. -/
  | blankLine
  /-- Text under a block that includes files. -/
  | afterInclude
  /-- A passage that a caller describes in its own words. -/
  | other (text : String)
deriving DecidableEq

/-- The wording of the warning about a passage. -/
def Passage.message : Passage → String
  | .preamble => "Ignoring content that does not belong to a task"
  | .blankLine => "Blank lines are not recommended within task blocks"
  | .afterInclude => "Text after an include block is ignored"
  | .other text => text

/-- What can be wrong with a document. -/
inductive Problem where
  | malformed (fault : Fault)
  | unknownProperty (key : String)
  | invalidIdentifier (error : IdError)
  | duplicateIdentifier (id : TaskId) (first : Option Location)
  | invalidValue (property value : String) (reason : Reason)
  | missingDependency (task dependency : TaskId)
  | missingInclude (path : Path) (reason : String)
  | cyclicInclude (path : Path)
  | dependencyCycle (cycle : List TaskId)
  | ignored (passage : Passage)
deriving DecidableEq

namespace Problem

/-- The class of a problem. -/
def kind : Problem → String
  | malformed _ => "syntax"
  | unknownProperty _ => "unknown-property"
  | invalidIdentifier _ => "invalid-identifier"
  | duplicateIdentifier _ _ => "invalid-identifier"
  | invalidValue _ _ _ => "invalid-value"
  | missingDependency _ _ => "missing-reference"
  | missingInclude _ _ => "missing-reference"
  | cyclicInclude _ => "cyclic-include"
  | dependencyCycle _ => "dependency-cycle"
  | ignored _ => "ignored"

/-- The wording of a problem. -/
def message : Problem → String
  | malformed fault => fault.message
  | unknownProperty key => "Unknown property '" ++ key ++ "'"
  | invalidIdentifier error => error.message
  | duplicateIdentifier id first =>
    "Duplicate task identifier " ++ id.text ++ match first with
      | some l => " (first declared at " ++ l.text ++ ")"
      | none => ""
  | invalidValue property value reason =>
    "Invalid " ++ property ++ " value '" ++ value ++ "': " ++ reason.message
  | missingDependency task dependency =>
    "Task " ++ task.text ++ " depends on " ++ dependency.text ++ ", which does not exist"
  | missingInclude path reason => "Cannot include " ++ path.text ++ ": " ++ reason
  | cyclicInclude path => "Include cycle: " ++ path.text ++ " is already being expanded"
  | dependencyCycle cycle =>
    "Dependency cycle: " ++ " -> ".intercalate (cycle.map TaskId.text)
  | ignored passage => passage.message

end Problem

/-- An error makes a document unusable; a warning does not. -/
inductive Severity where
  | error
  | warning
deriving DecidableEq

/-- The word for a severity. -/
def Severity.text : Severity → String
  | .error => "error"
  | .warning => "warning"

/-- One problem that is reported. -/
structure Diagnostic where
  severity : Severity
  /-- Where the problem lies; some problems lie nowhere in particular. -/
  location : Option Location
  problem : Problem
deriving DecidableEq

namespace Diagnostic

/-- Whether it reports an error. -/
def isError (d : Diagnostic) : Bool := d.severity == .error

/-- A diagnostic on one line: where, how severe, of which class, and what. -/
def text (d : Diagnostic) : String :=
  (match d.location with
    | some l => l.text ++ ": "
    | none => "") ++
  d.severity.text ++ "[" ++ d.problem.kind ++ "]: " ++ d.problem.message

end Diagnostic

/-- Whether a list of diagnostics has an error in it. -/
def hasErrors (ds : List Diagnostic) : Bool := ds.any Diagnostic.isError

/-- How many errors a list of diagnostics has. -/
def errorCount (ds : List Diagnostic) : Nat := ds.countP Diagnostic.isError

end TaskOutline
