/-! # Why a property value is refused

Each property reads its value from text. The causes for which a value is
refused are collected here, with their wording, so that a caller can tell them
apart without reading the text.
-/
namespace TaskOutline

/-- Why the value of a property is refused. -/
inductive Reason where
  /-- The text is no status. -/
  | unknownStatus
  /-- The text is no integer of 64 bits. -/
  | notAnInteger
  /-- The number is no priority. -/
  | priorityOutOfRange
  /-- The text has not the form of a date. -/
  | notADateForm
  /-- The text has the form of a date, but the calendar has no such day. -/
  | noSuchDay
  /-- A label without text. -/
  | emptyLabel
  /-- A list of dependencies without members. -/
  | emptyDepends
  /-- A path without text. -/
  | emptyPath
  /-- A cause that a caller gives in its own words. -/
  | other (text : String)
deriving DecidableEq

/-- The wording of a cause. -/
def Reason.message : Reason → String
  | .unknownStatus => "expected one of DONE, IN-PROGRESS, BLOCKED, TODO"
  | .notAnInteger => "must be an integer"
  | .priorityOutOfRange => "not in range 1..5"
  | .notADateForm => "not in format YYYY-MM-DD"
  | .noSuchDay => "input is out of range"
  | .emptyLabel => "label cannot be empty"
  | .emptyDepends => "leave out depends when there are no dependencies"
  | .emptyPath => "path cannot be empty"
  | .other text => text

end TaskOutline
