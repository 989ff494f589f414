import TaskOutline.Record

/-! # Fields

The lines of a front matter say one thing each: a key, and after the first
blank its value. A field is such a line once its value has been read.
-/
namespace TaskOutline

/-- What a line of a front matter can be about. -/
inductive Key where
  | task
  | label
  | status
  | priority
  | deadline
  | depends
  | inclusion
deriving DecidableEq

namespace Key

/-- Every key. -/
def all : List Key := [.task, .label, .status, .priority, .deadline, .depends, .inclusion]

/-- A key as it is written. -/
def text : Key → String
  | .task => "task"
  | .label => "label"
  | .status => "status"
  | .priority => "priority"
  | .deadline => "deadline"
  | .depends => "depends"
  | .inclusion => "include"

/-- The key that is written so. -/
def ofText? (s : String) : Option Key :=
  all.find? fun key => key.text == s

/-- Whether a block may have several lines with this key. -/
def mayRepeat : Key → Bool
  | .depends | .inclusion => true
  | _ => false

end Key

/-- A line of a front matter with its value read. -/
inductive Field where
  | task (id : TaskId)
  | label (text : String)
  | status (status : Status)
  | priority (priority : Declared Priority)
  | deadline (deadline : Declared Date)
  | depends (ids : List TaskId)
  | inclusion (path : String)
deriving DecidableEq

namespace Field

/-- Reads the value of a property, where a refusal is reported with the value. -/
def readValue {α : Type} (key : Key) (read : String → Except Reason α) (value : String) :
    Except Problem α :=
  (read value).mapError fun reason => .invalidValue key.text value reason

/-- Reads a value that may be any text but the empty one. -/
def readText (refusal : Reason) (value : String) : Except Reason String :=
  if value.isEmpty then .error refusal else .ok value

/-- Reads a list of identifiers, up to the first that is none. -/
def readIds (value : String) : Except IdError (List TaskId) :=
  (Text.words value.toList).mapM fun word => TaskId.parse (String.ofList word)

/-- Reads the value that a line gives for a key. -/
def read (key : Key) (value : String) : Except Problem Field :=
  match key with
  | .task => ((TaskId.parse value).mapError .invalidIdentifier).map .task
  | .label => (readValue key (readText .emptyLabel) value).map .label
  | .status => (readValue key Status.parse value).map .status
  | .priority => (readValue key (Declared.parse Priority.parse) value).map .priority
  | .deadline => (readValue key (Declared.parse Date.parse) value).map .deadline
  | .depends => do
    let list ← readValue key (readText .emptyDepends) value
    let ids ← (readIds list).mapError .invalidIdentifier
    return .depends ids
  | .inclusion => (readValue key (readText .emptyPath) value).map .inclusion

/-- The key of a field. -/
def key : Field → Key
  | task _ => .task
  | label _ => .label
  | status _ => .status
  | priority _ => .priority
  | deadline _ => .deadline
  | depends _ => .depends
  | inclusion _ => .inclusion

/-- The identifier that a field declares. -/
def id? : Field → Option TaskId
  | task id => some id
  | _ => none

/-- The label that a field declares. -/
def label? : Field → Option String
  | label text => some text
  | _ => none

/-- The status that a field declares. -/
def status? : Field → Option Status
  | status s => some s
  | _ => none

/-- What a field declares about the priority. -/
def priority? : Field → Option (Declared Priority)
  | priority p => some p
  | _ => none

/-- What a field declares about the deadline. -/
def deadline? : Field → Option (Declared Date)
  | deadline d => some d
  | _ => none

/-- The dependencies that a field declares. -/
def ids : Field → List TaskId
  | depends ids => ids
  | _ => []

/-- The path that a field includes. -/
def path? : Field → Option String
  | inclusion path => some path
  | _ => none

end Field

/-- The record that fields make up, if one of them declares an identifier. -/
def Record.ofFields? (fields : List Field) (notes : String) (location : Location) :
    Option Record :=
  (fields.findSome? Field.id?).map fun id =>
    { id := id
      label := fields.findSome? Field.label?
      status := fields.findSome? Field.status?
      priority := (fields.findSome? Field.priority?).getD .unset
      deadline := (fields.findSome? Field.deadline?).getD .unset
      depends := IdSet.ofList (fields.flatMap Field.ids)
      notes := notes
      location := location }

end TaskOutline
