import TaskOutline.Report.Agenda
import TaskOutline.Report.Exporter
import TaskOutline.Report.Listing
import TaskOutline.Report.Options
import TaskOutline.Report.Plain

/-! # Reports

The four reports put together from their parts.
-/
namespace TaskOutline

namespace Exporter

/-- Whether the report begins with the table of contents. -/
def hasContents (e : Exporter) : Bool := e == .simple || e == .full

/-- Whether the report has the calendar. -/
def hasCalendar (e : Exporter) : Bool := e == .calendar || e == .full

/-- Writes a report about an outline. -/
def write (e : Exporter) (t : Outline) (g : Dependencies) (o : Options) : String :=
  match e with
  | .plain => t.plainText
  | e =>
    (if e.hasContents then endLine (Contents.text t g o.fold) else "") ++
    (if e.hasCalendar then (Agenda.ofOutline t).text else "") ++
    (if o.summary then Listing.text t else "")

end Exporter

end TaskOutline
