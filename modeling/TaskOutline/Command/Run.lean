import TaskOutline.Command.Arguments
import TaskOutline.Load
import TaskOutline.Settings.ConfigFile
import TaskOutline.Text.Json

/-! # Running the program

What a command line does on a host: the report goes to standard output, and all
that is reported on the way to the standard error. The report is written only
if there is no error. How a command line and a configuration are understood is
left to readers.
-/
namespace TaskOutline

/-- How the texts are understood that a run is set up by. -/
structure Readers where
  /-- Reads a command line in an environment. -/
  arguments : (String → Option String) → List String → Except Halt Invocation
  /-- Reads a configuration, or says why it is none. -/
  config : String → Except String Config

/-- The readers of command lines in the usual form and of configurations in TOML. -/
def Readers.usual : Readers where
  arguments lookupEnv := Arguments.parse (lookupEnv "BURRITO_CONFIG")
  config text := (Config.parse text).mapError ConfigError.message

/-- What a run leaves behind. -/
structure Outcome where
  exitCode : Nat
  output : String
  errors : String
  /-- The files that could not be included, where there was something to include. -/
  refused : List Path := []
deriving DecidableEq

/-- Why a run ends before a report is tried. -/
inductive RunError where
  | unknownExporter (name : String)
  | noExporter
  | config (fault : ConfigFault)
  | option (error : OptionError)
  | unreadableInput (reason : String)
  | unreadableFile (path : Path) (reason : String)
deriving DecidableEq

/-- The names of the exporters in a list. -/
def exporterNames : String := ", ".intercalate (Exporter.all.map Exporter.text)

/-- The wording of a run error. -/
def RunError.message : RunError → String
  | .unknownExporter name =>
    "Unknown exporter '" ++ name ++ "' (expected one of: " ++ exporterNames ++ ")"
  | .noExporter => "No exporter given (expected one of: " ++ exporterNames ++ ")"
  | .config fault => fault.message
  | .option error => error.message
  | .unreadableInput reason => "Failed to read standard input: " ++ reason
  | .unreadableFile path reason => "Failed to read task file: " ++ path.text ++ ": " ++ reason

/-- The name and version of the program. -/
def versionLine : String := "burrito 0.1.0"

/-- How the program is called. -/
def usageLine : String := "Usage: burrito [OPTIONS] <INPUT> [EXPORTER|KEY=VALUE]..."

/-- A location as JSON. -/
def Location.json (l : Location) : String :=
  Text.jsonObject [("line", natText l.line), ("origin", Text.jsonText l.origin)]

/-- A diagnostic as JSON. -/
def Diagnostic.json (d : Diagnostic) : String :=
  Text.jsonObject [
    ("kind", Text.jsonText d.problem.kind),
    ("location", (d.location.map Location.json).getD "null"),
    ("message", Text.jsonText d.problem.message),
    ("severity", Text.jsonText d.severity.text)]

namespace DiagnosticFormat

/-- The line of a diagnostic. -/
def diagnosticLine (f : DiagnosticFormat) (d : Diagnostic) : String :=
  match f with
  | .text => d.text
  | .json => d.json

/-- The line of a warning that does not come from a document. -/
def warningLine (f : DiagnosticFormat) (message : String) : String :=
  match f with
  | .text => Severity.warning.text ++ ": " ++ message
  | .json => Text.jsonObject [
      ("message", Text.jsonText message), ("severity", Text.jsonText Severity.warning.text)]

/-- The line that ends the diagnostics of a failed run, where there is one. -/
def failureLines (f : DiagnosticFormat) (errors : Nat) : List String :=
  match f with
  | .text => ["Failed with " ++ natText errors ++ " error" ++ if errors = 1 then "" else "s"]
  | .json => []

end DiagnosticFormat

/-- Splits the words into the exporter, if the first word names one, and the options. A
word with `=` in it is an option. -/
def splitWords : List String → Except RunError (Option Exporter × List String)
  | [] => .ok (none, [])
  | first :: rest =>
    if first.toList.contains '=' then .ok (none, first :: rest)
    else match Exporter.ofTextFolded? first with
      | some e => .ok (some e, rest)
      | none => .error (.unknownExporter first)

/-- The source that is read as the input. -/
def Host.readSource (h : Host) (input : String) : Except RunError Source :=
  if input = "-" then
    match h.input with
    | .ok text => .ok { text := text }
    | .error reason => .error (.unreadableInput reason)
  else
    match h.workspace.read ⟨input⟩ with
    | .ok text => .ok { text := text, path := some ⟨input⟩ }
    | .error reason => .error (.unreadableFile ⟨input⟩ reason)

/-- The path that a problem with an included file is about. -/
def Problem.includePath? : Problem → Option Path
  | .missingInclude path _ => some path
  | .cyclicInclude path => some path
  | _ => none

/-- What a report leaves behind. -/
def Report.outcome (r : Report) (f : DiagnosticFormat) (before : List String) : Outcome :=
  let lines := before ++ r.diagnostics.map f.diagnosticLine
  let refused := r.diagnostics.filterMap fun d => d.problem.includePath?
  if r.isSuccess then ⟨0, r.text, unlines lines, refused⟩
  else ⟨1, "", unlines (lines ++ f.failureLines (errorCount r.diagnostics)), refused⟩

/-- What an error leaves behind. -/
def RunError.outcome (e : RunError) (before : List String) : Outcome :=
  ⟨1, "", unlines (before ++ ["Error: " ++ e.message]), []⟩

/-- The exporter and the options of an invocation, before any option is looked at. -/
def Invocation.settle (i : Invocation) (r : Readers) (h : Host) :
    Except RunError (Exporter × Options × List String) := do
  let (named, pairs) ← splitWords i.words
  let config ← (h.loadConfig r.config (i.config.map Path.mk)).mapError .config
  match named.or config.defaultExporter with
  | some e => return (e, config.options, pairs)
  | none => throw .noExporter

/-- The report of an invocation, once its exporter is known. -/
def Invocation.report (i : Invocation) (h : Host) (e : Exporter) (preset : Options)
    (pairs : List String) : Except RunError Report := do
  let options ← (preset.applyAll pairs).mapError .option
  let source ← h.readSource i.input
  return source.render h.workspace e options

/-- Carries out an invocation. -/
def Invocation.run (i : Invocation) (r : Readers) (h : Host) : Outcome :=
  match i.settle r h with
  | .error e => e.outcome []
  | .ok (e, preset, pairs) =>
    let warnings :=
      if !e.takesOptions && !pairs.isEmpty then
        [i.format.warningLine ("The " ++ e.text ++ " exporter ignores options")]
      else []
    match i.report h e preset pairs with
    | .error error => error.outcome warnings
    | .ok report => report.outcome i.format warnings

/-- What is left behind when there is nothing to run. -/
def Halt.outcome : Halt → Outcome
  | .usage => ⟨2, "", endLine usageLine, []⟩
  | .help => ⟨0, endLine usageLine, "", []⟩
  | .version => ⟨0, endLine versionLine, "", []⟩

/-- Carries out a command line. -/
def runCommand (r : Readers) (h : Host) (arguments : List String) : Outcome :=
  match r.arguments h.lookupEnv arguments with
  | .error halt => halt.outcome
  | .ok invocation => invocation.run r h

end TaskOutline
