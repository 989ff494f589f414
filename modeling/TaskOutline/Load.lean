import TaskOutline.Document.Expansion
import TaskOutline.Document.Source
import TaskOutline.Outline.Cycles
import TaskOutline.Outline.Inheritance
import TaskOutline.Report.Render

/-! # Loading a document

From a source to its outline: the text is read as blocks, included files are
expanded, the records are put in their places, values are passed down, and
dependencies are checked. Every problem on the way is reported. A document is
loaded exactly when none of what was reported, then or before, is an error.
-/
namespace TaskOutline

/-- A document that has been loaded. -/
structure Document where
  outline : Outline
  dependencies : Dependencies

/-- The records of a source with those of the files that it includes. -/
def Source.records (source : Source) (w : Workspace) : Logged (List Record) := do
  let blocks ← readDocument source.origin source.text
  w.expand (source.includeDir w.workingDir) source.path blocks

/-- Loads a document, where `prior` was reported before: the document, if there is
no error, and `prior` with what is reported now.

Dependencies are checked only when no record is missing, since a record that was
left out would be taken for a task that does not exist. -/
def Source.load (source : Source) (w : Workspace) (prior : List Diagnostic) :
    Option Document × List Diagnostic :=
  let records := source.records w
  let log := prior ++ records.log
  if hasErrors log then
    let built := Outline.build records.value
    (none, log ++ built.log)
  else if records.value.isEmpty then
    (none, log ++ [⟨.error, none, .malformed (.noTasks source.origin)⟩])
  else
    let built := Outline.build records.value
    let outline := built.value.settle
    let checked := Dependencies.check outline
    let log := log ++ built.log ++ checked.log
    (if hasErrors log then none else some ⟨outline, checked.value⟩, log)

/-- What comes of a run: a report, and what was reported on the way. -/
structure Report where
  /-- The report; empty when the run has failed. -/
  text : String
  diagnostics : List Diagnostic

/-- Whether the run has gone without an error. -/
def Report.isSuccess (r : Report) : Bool := !hasErrors r.diagnostics

/-- Loads a source and writes a report about it. -/
def Source.render (source : Source) (w : Workspace) (exporter : Exporter) (options : Options) :
    Report :=
  match source.load w [] with
  | (some doc, log) => ⟨exporter.write doc.outline doc.dependencies options, log⟩
  | (none, log) => ⟨"", log⟩

end TaskOutline
