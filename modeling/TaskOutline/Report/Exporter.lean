import TaskOutline.Text.Blank

/-! # Exporters

The four reports that can be written about a document, by name.
-/
namespace TaskOutline

/-- A kind of report. -/
inductive Exporter where
  /-- The unfinished tasks by deadline. -/
  | calendar
  /-- A table of contents. -/
  | simple
  /-- The table of contents and the calendar. -/
  | full
  /-- The document itself, in its canonical form. -/
  | plain
deriving DecidableEq

namespace Exporter

/-- Every exporter. -/
def all : List Exporter := [.calendar, .simple, .full, .plain]

/-- The name of an exporter. -/
def text : Exporter → String
  | .calendar => "calendar"
  | .simple => "simple"
  | .full => "full"
  | .plain => "plain"

instance : ToString Exporter := ⟨text⟩

/-- The exporter of this name. -/
def ofText? (s : String) : Option Exporter :=
  all.find? fun exporter => exporter.text == s

/-- The exporter of this name, in any ASCII case. -/
def ofTextFolded? (s : String) : Option Exporter :=
  all.find? fun exporter => exporter.text.toList == Text.fold s.toList

/-- Whether the report changes with the options. -/
def takesOptions (e : Exporter) : Bool := e != .plain

end Exporter

end TaskOutline
