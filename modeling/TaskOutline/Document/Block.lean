import TaskOutline.Document.Field
import TaskOutline.Document.Layout
import TaskOutline.Logged

/-! # Blocks

A section of a document is a block: it declares a task, or it names files to be
included. Every fault of a section is reported, and a section with a fault
yields no block.
-/
namespace TaskOutline

/-- The files that a block includes. -/
structure Inclusion where
  /-- The paths in order, as they were written. -/
  paths : List String
  /-- The line of the opening fence. -/
  location : Location
deriving DecidableEq

/-- What a section says. -/
inductive Block where
  | task (record : Record)
  | inclusion (files : Inclusion)
deriving DecidableEq

/-- A line of a front matter that is not blank. -/
structure Entry where
  key : String
  value : String
  location : Location
deriving DecidableEq

/-- An entry whose key is known. -/
structure Item where
  key : Key
  value : String
  location : Location
deriving DecidableEq

/-- The key of a line and the value after it. -/
def Entry.ofLine (location : Location) (line : List Char) : Entry :=
  let (key, value) := Text.cutAtBlank (Text.trim line)
  ⟨String.ofList key, String.ofList (Text.trim value), location⟩

/-- The entries of a front matter that begins at line `n`. Blank lines are passed
over with a warning. -/
def readEntries (origin : String) (n : Nat) : List (List Char) → Logged (List Entry)
  | [] => return []
  | line :: rest =>
    if Text.allBlank line then do
      Logged.warn ⟨origin, n⟩ (.ignored .blankLine)
      readEntries origin (n + 1) rest
    else do
      let entries ← readEntries origin (n + 1) rest
      return Entry.ofLine ⟨origin, n⟩ line :: entries

/-- The entry as an item, if its key is known. -/
def Entry.item? (e : Entry) : Option Item :=
  (Key.ofText? e.key).map fun key => ⟨key, e.value, e.location⟩

/-- Reports an entry whose key is not known, where `known` says whether all keys before it
have been known. -/
def Entry.checkKey (known : Bool) (e : Entry) : Logged Bool :=
  match Key.ofText? e.key with
  | some _ => return known
  | none => do
    Logged.error e.location (.unknownProperty e.key)
    return false

/-- What has been read of the items of a block. -/
structure BlockDraft where
  fields : List Field := []
  /-- The keys that must not come again. -/
  seen : List Key := []
  /-- Whether no item has been refused. -/
  sound : Bool := true

/-- Reads one more item. An item whose key has been seen is refused unless the key may
repeat. -/
def BlockDraft.add (d : BlockDraft) (item : Item) : Logged BlockDraft :=
  if !item.key.mayRepeat ∧ item.key ∈ d.seen then do
    Logged.error item.location (.malformed (.duplicateProperty item.key.text))
    return { d with sound := false }
  else
    let seen := if item.key.mayRepeat then d.seen else item.key :: d.seen
    match Field.read item.key item.value with
    | .error problem => do
      Logged.error item.location problem
      return { d with seen := seen, sound := false }
    | .ok field => return { d with seen := seen, fields := d.fields ++ [field] }

/-- Reads the items of a block that includes files. -/
def buildInclusion (opening : Location) (items : List Item) : Logged (Option Block) := do
  let d ← items.foldlM BlockDraft.add {}
  return if d.sound then some (.inclusion ⟨d.fields.filterMap Field.path?, opening⟩) else none

/-- Reads the items of a block that declares a task. That a block names no task is
reported only if it does not try to. -/
def buildTask (opening : Location) (notes : String) (items : List Item) :
    Logged (Option Block) := do
  let d ← items.foldlM BlockDraft.add {}
  match Record.ofFields? d.fields notes opening with
  | none => do
    if .task ∉ d.seen then
      Logged.error opening (.malformed .missingTask)
    return none
  | some record => return if d.sound then some (.task record) else none

/-- Reads items as the kind of block that their keys call for. -/
def buildItems (opening : Location) (notes : String) (items : List Item) :
    Logged (Option Block) :=
  if items.any fun item => item.key = .inclusion then
    if items.any fun item => item.key ≠ .inclusion then do
      Logged.error opening (.malformed .mixedBlock)
      return none
    else buildInclusion opening items
  else buildTask opening notes items

/-- Reads entries as a block. A block with an error in it is left out. -/
def readBlock (opening : Location) (notes : String) (entries : List Entry) :
    Logged (Option Block) := do
  let known ← entries.foldlM Entry.checkKey true
  let block ← buildItems opening notes (entries.filterMap Entry.item?)
  return if known then block else none

/-- Reads a section as a block. Notes under a block that includes files belong to
no task; they are passed over with a warning. -/
def Section.read (origin : String) (s : Section) : Logged (Option Block) := do
  let entries ← readEntries origin (s.line + 1) s.front
  let block ← readBlock ⟨origin, s.line⟩ s.notesText entries
  match block with
  | some (.inclusion files) =>
    if !Text.allBlank s.notes.flatten then
      Logged.warn files.location (.ignored .afterInclude)
    return block
  | _ => return block

/-- Reads sections in order. -/
def readSections (origin : String) : List Section → Logged (List Block)
  | [] => return []
  | s :: rest => do
    let block ← s.read origin
    let blocks ← readSections origin rest
    return block.toList ++ blocks

/-- The number of the first line that is not blank, the first of all being `n`. -/
def firstText? (n : Nat) : List (List Char) → Option Nat
  | [] => none
  | line :: rest => if Text.allBlank line then firstText? (n + 1) rest else some n

/-- Reads the parts of a document. -/
def Layout.read (origin : String) (layout : Layout) : Logged (List Block) := do
  if let some n := firstText? 1 layout.lead then
    Logged.warn ⟨origin, n⟩ (.ignored .preamble)
  let blocks ← readSections origin layout.sections
  if let some n := layout.unterminated then
    Logged.error ⟨origin, n⟩ (.malformed .unterminated)
  return blocks

/-- Reads a text as the blocks of a document. -/
def readDocument (origin : String) (text : String) : Logged (List Block) :=
  (Layout.ofText text).read origin

end TaskOutline
