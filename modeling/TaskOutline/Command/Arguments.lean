/-! # Command-line arguments

The arguments are read from the first to the last: the input, then free words,
and among them options. An option is long (`--format`) or short (`-f`); short
ones may be written together, and a value may be attached or follow as the next
argument. Every option may be given once. After `--` all arguments are words.
-/
namespace TaskOutline

/-- How diagnostics are written. -/
inductive DiagnosticFormat where
  | text
  | json
deriving DecidableEq

/-- What a command line asks for. -/
structure Invocation where
  /-- The file to read, or `-`. -/
  input : String
  /-- The words after it. -/
  words : List String
  /-- The configuration file, if one is named. -/
  config : Option String
  format : DiagnosticFormat
  verbose : Bool
deriving DecidableEq

/-- Why there is nothing to run. -/
inductive Halt where
  /-- The arguments are not understood. -/
  | usage
  /-- Help is asked for. -/
  | help
  /-- The version is asked for. -/
  | version
deriving DecidableEq

namespace Arguments

/-- What has been read so far. -/
structure Draft where
  words : List String := []
  config : Option String := none
  format : Option DiagnosticFormat := none
  verbose : Bool := false

/-- An option that takes a value. -/
inductive Setting where
  | config
  | format
deriving DecidableEq

/-- A format by its name. -/
def formatOfText? : String → Option DiagnosticFormat
  | "text" => some .text
  | "json" => some .json
  | _ => none

/-- Settles an option that has not been settled before. The name of a file is not
empty. -/
def Draft.set (d : Draft) (setting : Setting) (value : String) : Except Halt Draft :=
  match setting with
  | .config =>
    if d.config.isSome ∨ value.isEmpty then .error .usage
    else .ok { d with config := some value }
  | .format =>
    match d.format, formatOfText? value with
    | none, some format => .ok { d with format := some format }
    | _, _ => .error .usage

/-- Settles the flag of verbose runs, once. -/
def Draft.setVerbose (d : Draft) : Except Halt Draft :=
  if d.verbose then .error .usage else .ok { d with verbose := true }

/-- Adds a word. -/
def Draft.addWord (d : Draft) (word : String) : Draft :=
  { d with words := d.words ++ [word] }

/-- An argument by its form. -/
inductive Form where
  /-- The argument `--`. -/
  | separator
  /-- A long option, perhaps with a value attached. -/
  | long (name : String) (value : Option String)
  /-- Short options. -/
  | short (letters : List Char)
  | word
deriving DecidableEq

/-- The form of an argument. A single `-` is a word. -/
def Form.of (argument : String) : Form :=
  match argument.toList with
  | ['-', '-'] => .separator
  | '-' :: '-' :: rest =>
    match rest.dropWhile (· ≠ '=') with
    | [] => .long (String.ofList rest) none
    | _ :: value => .long (String.ofList (rest.takeWhile (· ≠ '='))) (some (String.ofList value))
  | '-' :: c :: rest => .short (c :: rest)
  | _ => .word

/-- Reads short options from the first on. The last may be one whose value is the next
argument, which is then given back. -/
def readShort (d : Draft) : List Char → Except Halt (Draft × Option Setting)
  | [] => .ok (d, none)
  | 'v' :: rest => do readShort (← d.setVerbose) rest
  | 'h' :: _ => .error .help
  | 'V' :: _ => .error .version
  | ['f'] => .ok (d, some .format)
  | 'f' :: '=' :: value => do return (← d.set .format (String.ofList value), none)
  | 'f' :: value => do return (← d.set .format (String.ofList value), none)
  | _ => .error .usage

/-- Reads a long option. If its value is the next argument, the option is given back. -/
def readLong (d : Draft) (name : String) (value : Option String) :
    Except Halt (Draft × Option Setting) :=
  match name, value with
  | "config", some value => do return (← d.set .config value, none)
  | "config", none => .ok (d, some .config)
  | "format", some value => do return (← d.set .format value, none)
  | "format", none => .ok (d, some .format)
  | "verbose", none => do return (← d.setVerbose, none)
  | "help", none => .error .help
  | "version", none => .error .version
  | _, _ => .error .usage

/-- Reads arguments from the first on, where `waiting` is an option that waits for its
value. A value has not the form of an option. -/
def readFrom (d : Draft) (waiting : Option Setting) : List String → Except Halt Draft
  | [] => if waiting.isSome then .error .usage else .ok d
  | argument :: rest =>
    match waiting, Form.of argument with
    | some setting, .word => do readFrom (← d.set setting argument) none rest
    | some _, _ => .error .usage
    | none, .word => readFrom (d.addWord argument) none rest
    | none, .separator => .ok { d with words := d.words ++ rest }
    | none, .short letters => do
      let (d, waiting) ← readShort d letters
      readFrom d waiting rest
    | none, .long name value => do
      let (d, waiting) ← readLong d name value
      readFrom d waiting rest

/-- Reads a command line, where `configVariable` names the configuration file if no
option does. -/
def parse (configVariable : Option String) (arguments : List String) :
    Except Halt Invocation := do
  let d ← readFrom {} none arguments
  let d ← match d.config, configVariable with
    | none, some value => d.set .config value
    | _, _ => .ok d
  match d.words with
  | [] => .error .usage
  | input :: words =>
    return ⟨input, words, d.config, d.format.getD .text, d.verbose⟩

end Arguments

end TaskOutline
