import TaskOutline.Outline.Basic
import TaskOutline.Report.Contents

/-! # The calendar

The tasks that are not done, by deadline: under a heading for each month, and in
it for each day, and last the tasks without a deadline.
-/
namespace TaskOutline

/-- The tasks that are not done. -/
structure Agenda where
  /-- Those with a deadline, the earliest first; those of one day in order. -/
  dated : List (Date × Node)
  /-- Those without a deadline, in order. -/
  undated : List Node

namespace Agenda

/-- The agenda of an outline. -/
def ofOutline (t : Outline) : Agenda :=
  let active := t.nodes.filter fun n => !n.isComplete
  let dated := active.filterMap fun n => n.deadline.map fun d => (d, n)
  { dated := dated.mergeSort fun a b => !decide (b.1 < a.1)
    undated := active.filter fun n => n.deadline.isNone }

/-- The line of a task. -/
def bullet (n : Node) : String :=
  "- " ++ n.status.marker ++ " " ++ n.heading

/-- The lines above the first task of a month. -/
def monthHeading (d : Date) : List String :=
  ["## " ++ d.monthName ++ " " ++ String.ofList (Text.fixedNumeral 4 d.year), ""]

/-- The lines above the first task of a day. -/
def dayHeading (d : Date) : List String :=
  ["### " ++ d.text ++ " " ++ d.weekdayName, ""]

/-- What the last headings were about. -/
structure Headings where
  /-- The year and the month of the last heading of a month. -/
  month : Option (Nat × Nat) := none
  /-- The day of the last heading of a day in that month. -/
  day : Option Date := none

namespace Headings

/-- The heading of the month of a day, unless it is the last one. With a new month, no
day has a heading any more. -/
def openMonth (s : Headings) (d : Date) : List String × Headings :=
  if s.month = some (d.year, d.month) then ([], s)
  else
    ((if s.month.isSome then [""] else []) ++ monthHeading d, ⟨some (d.year, d.month), none⟩)

/-- The heading of a day, unless it is the last one. -/
def openDay (s : Headings) (d : Date) : List String × Headings :=
  if s.day = some d then ([], s)
  else ((if s.day.isSome then [""] else []) ++ dayHeading d, { s with day := some d })

end Headings

/-- The lines of tasks with deadlines, given the last headings. -/
def datedLines (s : Headings) : List (Date × Node) → List String
  | [] => []
  | (d, n) :: rest =>
    let (month, s) := s.openMonth d
    let (day, s) := s.openDay d
    month ++ day ++ bullet n :: datedLines s rest

/-- The lines of the tasks with deadlines. -/
def datedSection (a : Agenda) : List String :=
  if a.dated.isEmpty then ["No active tasks have a deadline.", ""]
  else datedLines {} a.dated ++ [""]

/-- The lines of the tasks without deadlines. -/
def undatedSection (a : Agenda) : List String :=
  if a.undated.isEmpty then []
  else "## No Deadline" :: "" :: a.undated.map bullet ++ [""]

/-- The calendar. -/
def text (a : Agenda) : String :=
  unlines ("# Calendar" :: "" :: a.datedSection ++ a.undatedSection)

end Agenda

end TaskOutline
