import TaskOutline.Toml.Reader

/-! # TOML documents

The lines of a TOML text put together to one table. A header may be given once,
and may come after the headers of tables below its own; a key may be given once.
-/
namespace TaskOutline.Toml

/-- A line of a TOML text. -/
inductive Statement where
  /-- A line that says nothing. -/
  | blank
  /-- The header of a table. -/
  | table (name : DottedKey)
  /-- The header of one of several tables with one name. -/
  | item (name : DottedKey)
  /-- A key and its value. -/
  | entry (key : DottedKey) (v : Value)

/-- A line that ends here, where `left` is what was left of a text. -/
def endStatement {cs : List Char} (statement : Statement) (left : Rest cs) :
    Reading Statement cs :=
  match h : lineRest? left.val with
  | none => none
  | some rest => some (statement, ⟨rest, by
      have := length_lineRest?_le h
      have := left.property
      omega⟩)

/-- Reads a key with fewer parts than the limit. -/
def readShortKey (cs : List Char) : Reading DottedKey cs :=
  match readKey cs with
  | some (k, left) => if depthLimit ≤ k.size then none else some (k, left)
  | none => none

/-- Reads the rest of a header, after its opening brackets. -/
def readHeader (doubled : Bool) (cs : List Char) : Reading Statement cs :=
  match readShortKey cs with
  | none => none
  | some (name, ⟨left, hl⟩) =>
    match doubled, left with
    | false, ']' :: rest =>
      endStatement (.table name) ⟨rest, by rw [List.length_cons] at hl; omega⟩
    | true, ']' :: ']' :: rest =>
      endStatement (.item name) ⟨rest, by simp only [List.length_cons] at hl; omega⟩
    | _, _ => none

/-- Reads a key and its value. -/
def readPair (cs : List Char) : Reading Statement cs :=
  match readShortKey cs with
  | none => none
  | some (k, left) =>
    match afterEquals? left.val with
    | none => none
    | some before =>
      match readValue 0 (skipSpace before.val) with
      | none => none
      | some (v, rest) =>
        endStatement (.entry k v) (left.trans (before.trans rest.afterSpace))

/-- Reads a line, and the line end with it. -/
def readStatement (cs : List Char) : Reading Statement cs :=
  match cs with
  | [] => none
  | '\n' :: rest => some (.blank, .tail _ rest)
  | '\r' :: '\n' :: rest => some (.blank, ⟨rest, by simp only [List.length_cons]; omega⟩)
  | '#' :: rest => endStatement .blank ⟨rest.dropWhile isPlain,
      Nat.lt_succ_of_le (List.dropWhile_sublist _).length_le⟩
  | '[' :: '[' :: rest => (readHeader true rest).map fun (s, left) => (s, left.within.within)
  | '[' :: rest => (readHeader false rest).map fun (s, left) => (s, left.within)
  | c :: rest => readPair (c :: rest)

/-- Reads lines up to the end of the text. -/
def readStatements (cs : List Char) : Option (List Statement) :=
  have _le := length_skipSpace_le cs
  match _start : skipSpace cs with
  | [] => some []
  | c :: rest =>
    match readStatement (c :: rest) with
    | none => none
    | some (statement, ⟨left, _⟩) => (readStatements left).map (statement :: ·)
termination_by cs.length
decreasing_by
  rw [_start] at _le
  omega

namespace Entries

/-- Changes the table that the names of a header lead to. Tables that are missing on
the way are implied; of several tables with one name the last is meant. A table
between braces is closed. -/
def change? (es : Entries) (path : List String) (f : Entries → Option Entries) :
    Option Entries :=
  match path with
  | [] => f es
  | name :: rest =>
    match es.get? name with
    | none => (change? [] rest f).map fun inner => es.put name (.table .implied inner)
    | some (.table kind inner) =>
      if kind = .inline then none
      else (change? inner rest f).map fun inner => es.put name (.table kind inner)
    | some (.tables items) =>
      (change? (items.getLast?.getD []) rest f).map fun inner =>
        es.put name (.tables (items.dropLast ++ [inner]))
    | some _ => none

/-- Begins the table of a header. A table that was implied so far keeps what it has. -/
def beginTable? (key : String) (es : Entries) : Option Entries :=
  match es.get? key with
  | none => some (es.put key (.table .defined []))
  | some (.table .implied inner) => some (es.put key (.table .defined inner))
  | some _ => none

/-- Begins one more of several tables with one name. -/
def beginItem? (key : String) (es : Entries) : Option Entries :=
  match es.get? key with
  | none => some (es.put key (.tables [[]]))
  | some (.tables items) => some (es.put key (.tables (items ++ [[]])))
  | some _ => none

/-- Adds what the lines say, where `header` leads to the table begun last. -/
def addAll? (es : Entries) (header : List String) : List Statement → Option Entries
  | [] => some es
  | .blank :: rest => addAll? es header rest
  | .table name :: rest => do
    let es ← es.change? name.path (beginTable? name.key)
    addAll? es (name.path ++ [name.key]) rest
  | .item name :: rest => do
    let es ← es.change? name.path (beginItem? name.key)
    addAll? es (name.path ++ [name.key]) rest
  | .entry key v :: rest => do
    let es ← es.change? header fun table => table.insert? key.path key.key v
    addAll? es header rest

end Entries

/-- The table that a TOML text writes. A byte order mark in front is passed over. -/
def parse? (text : String) : Option Entries := do
  let cs := match text.toList with
    | '\ufeff' :: rest => rest
    | cs => cs
  Entries.addAll? [] [] (← readStatements cs)

end TaskOutline.Toml
