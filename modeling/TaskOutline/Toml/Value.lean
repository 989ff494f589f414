/-! # TOML values

What a TOML text can hold. A table remembers how it came about, since that
decides whether later lines may add to it.
-/
namespace TaskOutline.Toml

/-- How a table came about. -/
inductive TableKind where
  /-- Its name stands in the header of a table below it. -/
  | implied
  /-- Its name stands in a dotted key. -/
  | dotted
  /-- It has a header of its own. -/
  | defined
  /-- It is written between braces. -/
  | inline
deriving DecidableEq

/-- A TOML value. Floats and times are kept as they were written. -/
inductive Value where
  | text (s : String)
  | integer (i : Int)
  | float (s : String)
  | boolean (b : Bool)
  | time (s : String)
  | array (items : List Value)
  | table (kind : TableKind) (entries : List (String × Value))
  /-- The tables that are written one by one under a doubled header. -/
  | tables (items : List (List (String × Value)))
deriving Inhabited

/-- The entries of a table, in the order in which they were first written. -/
abbrev Entries := List (String × Value)

namespace Entries

/-- The value of a key. -/
def get? (es : Entries) (key : String) : Option Value :=
  (es.find? fun e => e.1 = key).map Prod.snd

/-- Whether a key has a value. -/
def has (es : Entries) (key : String) : Bool := (es.get? key).isSome

/-- Gives a key a value, in its old place if it had one. -/
def put (es : Entries) (key : String) (v : Value) : Entries :=
  if es.has key then es.map fun e => if e.1 = key then (key, v) else e else es ++ [(key, v)]

end Entries

end TaskOutline.Toml
