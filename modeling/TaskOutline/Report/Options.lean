import TaskOutline.Text.Blank

/-! # Report options

Two flags that a report takes, and the pairs `key=value` that set them. Pairs
are applied from left to right and the later one wins; a pair that cannot be
applied changes nothing.

Options can also be changed where they are: pairs are offered to them one at a
time, and a pair that is refused does not end the row.
-/
namespace TaskOutline

/-- The flags of a report. -/
structure Options where
  /-- Whether the listing of all tasks follows the report. -/
  summary : Bool := true
  /-- Whether the contents leave out what lies under finished tasks. -/
  fold : Bool := false
deriving DecidableEq, Inhabited

/-- The name of a flag. -/
inductive Flag where
  | summary
  | fold
deriving DecidableEq

/-- A flag as it is written. -/
def Flag.text : Flag → String
  | .summary => "summary"
  | .fold => "fold"

/-- The flag of this name. -/
def Flag.ofText? (s : String) : Option Flag :=
  [Flag.summary, Flag.fold].find? fun flag => flag.text == s

/-- Why a pair cannot be applied. -/
inductive OptionError where
  | malformed (pair : String)
  | unknownKey (key : String)
  | invalidValue (key value : String)
deriving DecidableEq

/-- The wording of an option error. -/
def OptionError.message : OptionError → String
  | .malformed pair => "Invalid option '" ++ pair ++ "', not in KEY=VALUE format"
  | .unknownKey key => "Unknown option '" ++ key ++ "' (expected one of: summary, fold)"
  | .invalidValue key value =>
    "Invalid value '" ++ value ++ "' for " ++ key ++ " option, expected 1 or 0"

namespace Options

/-- The words that set a flag. -/
def onWords : List String := ["1", "true", "yes", "on"]

/-- The words that take a flag back. -/
def offWords : List String := ["0", "false", "no", "off"]

/-- The setting that a word in any ASCII case stands for. -/
def readSwitch? (s : String) : Option Bool :=
  let word := String.ofList (Text.fold s.toList)
  if word ∈ onWords then some true
  else if word ∈ offWords then some false
  else none

/-- The options with one flag changed. -/
def set (o : Options) (flag : Flag) (on : Bool) : Options :=
  match flag with
  | .summary => { o with summary := on }
  | .fold => { o with fold := on }

/-- The setting of a flag. -/
def get (o : Options) : Flag → Bool
  | .summary => o.summary
  | .fold => o.fold

/-- What stands before the first `=` of a pair and what stands after it. -/
def cut? (cs : List Char) : Option (List Char × List Char) :=
  match cs.dropWhile (· ≠ '=') with
  | [] => none
  | _ :: value => some (cs.takeWhile (· ≠ '='), value)

/-- The flag that a pair names and the setting that it gives. Blanks around the
key and the value do not count. -/
def readPair (pair : String) : Except OptionError (Flag × Bool) :=
  match cut? pair.toList with
  | none => .error (.malformed pair)
  | some (key, value) =>
    let key := String.ofList (Text.trim key)
    let value := String.ofList (Text.trim value)
    match Flag.ofText? key with
    | none => .error (.unknownKey key)
    | some flag =>
      match readSwitch? value with
      | none => .error (.invalidValue key value)
      | some on => .ok (flag, on)

/-- Applies one pair. -/
def apply (o : Options) (pair : String) : Except OptionError Options :=
  (readPair pair).map fun (flag, on) => o.set flag on

/-- Applies pairs from left to right, up to the first that cannot be applied. -/
def applyAll (o : Options) (pairs : List String) : Except OptionError Options :=
  pairs.foldlM apply o

/-- Applies one pair to the options in place. They are there afterwards, whether or not
it could be applied. -/
def offer (pair : String) : EStateM OptionError Options Unit := do
  let (flag, on) ← liftExcept (readPair pair)
  modify fun o => o.set flag on

/-- What comes of offering a pair: the error if it is refused, and the options that are
there afterwards. -/
structure Reply where
  error : Option OptionError
  options : Options
deriving DecidableEq

/-- Offers one pair. -/
def reply (o : Options) (pair : String) : Reply :=
  match offer pair o with
  | .ok _ after => ⟨none, after⟩
  | .error e after => ⟨some e, after⟩

/-- Offers pairs one after the other, each to the options that the one before left. -/
def replies (o : Options) : List String → List Reply
  | [] => []
  | pair :: pairs => o.reply pair :: replies (o.reply pair).options pairs

end Options

end TaskOutline
