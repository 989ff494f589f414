import TaskOutline.Report.Exporter
import TaskOutline.Report.Options
import TaskOutline.Toml.Document

/-! # The configuration

What a configuration file settles: which report is written when none is asked
for, and the options that reports start from. The file is written in TOML; at
the top it may have the keys `default_exporter` and `export` and no others.
-/
namespace TaskOutline

/-- The settings of a configuration file. -/
structure Config where
  /-- The report that is written when none is asked for. -/
  defaultExporter : Option Exporter := none
  /-- The options before any are given. -/
  options : Options := {}
deriving DecidableEq, Inhabited

/-- Why a text is no configuration. -/
inductive ConfigError where
  | notToml
  | unknownKey (key : String)
  | badExporter
  | badOptions
deriving DecidableEq

/-- The wording of a configuration error. -/
def ConfigError.message : ConfigError → String
  | .notToml => "invalid TOML"
  | .unknownKey key => "unknown field `" ++ key ++ "`, expected `default_exporter` or `export`"
  | .badExporter => "invalid value for `default_exporter`"
  | .badOptions => "invalid value for `export`"

namespace Config

open Toml

/-- A value without content: an array or a table with nothing in it. -/
def isEmptyValue : Value → Bool
  | .array items => items.isEmpty
  | .table _ entries => entries.isEmpty
  | .tables items => items.isEmpty
  | _ => false

/-- An exporter by its name, or as a table whose only key is the name, without
content. -/
def readExporter? : Value → Option Exporter
  | .text name => Exporter.ofText? name
  | .table _ [(name, content)] =>
    if isEmptyValue content then Exporter.ofText? name else none
  | _ => none

/-- The setting of a flag; where nothing is written, the one it has. -/
def readFlag? (preset : Bool) : Option Value → Option Bool
  | none => some preset
  | some (.boolean b) => some b
  | some _ => none

/-- Options by key, or as an array in the order of the keys. Further keys and items
say nothing, and neither does a time. -/
def readOptions? : Value → Option Options
  | .table _ entries => do
    let summary ← readFlag? true (Entries.get? entries Flag.summary.text)
    let fold ← readFlag? false (Entries.get? entries Flag.fold.text)
    return ⟨summary, fold⟩
  | .array items => do
    let summary ← readFlag? true items[0]?
    let fold ← readFlag? false items[1]?
    return ⟨summary, fold⟩
  | .time _ => some {}
  | _ => none

/-- Adds what an entry settles. -/
def add (c : Config) (entry : String × Value) : Except ConfigError Config :=
  if entry.1 = "default_exporter" then
    match readExporter? entry.2 with
    | some e => .ok { c with defaultExporter := some e }
    | none => .error .badExporter
  else if entry.1 = "export" then
    match readOptions? entry.2 with
    | some o => .ok { c with options := o }
    | none => .error .badOptions
  else .error (.unknownKey entry.1)

/-- Reads a configuration. -/
def parse (text : String) : Except ConfigError Config :=
  match Toml.parse? text with
  | none => .error .notToml
  | some entries => entries.foldlM add {}

end Config

end TaskOutline
