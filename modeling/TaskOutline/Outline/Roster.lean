import TaskOutline.Identifier.Ascending
import TaskOutline.Logged
import TaskOutline.Record

/-! # The roster

The roster of a document has an entry for each identifier that is declared and
for each one above it. It grows by one record at a time, in any order. The
first record of an identifier stands; a later one is reported.
-/
namespace TaskOutline

/-- An identifier, and its record if it was declared. -/
abbrev RosterEntry := TaskId × Option Record

/-- The identifiers of a document. -/
structure Roster where
  /-- The entries in the order of their identifiers. -/
  entries : List RosterEntry
  ascending : Ascending Prod.fst entries

namespace Roster

/-- The roster without entries. -/
def empty : Roster := ⟨[], Ascending.nil⟩

/-- What the roster has for an identifier: nothing, or perhaps a record. -/
def find? (s : Roster) (id : TaskId) : Option (Option Record) :=
  (s.entries.find? fun entry => entry.1 = id).map Prod.snd

/-- Whether an identifier has an entry. -/
def contains (s : Roster) (id : TaskId) : Bool := (s.find? id).isSome

/-- Enters an identifier, or changes its entry. -/
def put (s : Roster) (id : TaskId) (record : Option Record) : Roster :=
  ⟨Ascending.place Prod.fst (id, record) s.entries, Ascending.ascending_place s.ascending⟩

/-- Enters identifiers without records. -/
def putImplicit (s : Roster) (ids : List TaskId) : Roster :=
  ids.foldl (fun s id => s.put id none) s

/-- Enters a record. The identifiers above it are entered too, from the nearest
up to the first that has an entry. -/
def declare (s : Roster) (record : Record) : Logged Roster :=
  match s.find? record.id with
  | some (some first) => do
    Logged.error record.location (.duplicateIdentifier record.id (some first.location))
    return s
  | some none => return s.put record.id (some record)
  | none =>
    let missing := record.id.ancestors.takeWhile fun id => !s.contains id
    return (s.putImplicit missing).put record.id (some record)

/-- Enters records from the first on. -/
def declareAll (s : Roster) : List Record → Logged Roster
  | [] => return s
  | record :: rest => do
    let s ← s.declare record
    s.declareAll rest

/-- The roster of these records. -/
def ofRecords (records : List Record) : Logged Roster :=
  empty.declareAll records

end Roster

end TaskOutline
