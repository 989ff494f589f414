import TaskOutline.Main
import TaskOutline.Proofs.Command.Outcome
import TaskOutline.Proofs.Document.Accepted
import TaskOutline.Proofs.Document.KeyOrder
import TaskOutline.Proofs.Document.LineEnds
import TaskOutline.Proofs.Document.ReadBack
import TaskOutline.Proofs.Document.Seam
import TaskOutline.Proofs.Identifier.Hierarchy
import TaskOutline.Proofs.Identifier.Spelling
import TaskOutline.Proofs.Inclusion.BaseDirectory
import TaskOutline.Proofs.Inclusion.Root
import TaskOutline.Proofs.Inclusion.Splice
import TaskOutline.Proofs.Inclusion.Stack
import TaskOutline.Proofs.Load.Arrangement
import TaskOutline.Proofs.Load.RoundTrip
import TaskOutline.Proofs.Outline.Indices
import TaskOutline.Proofs.Outline.InheritancePass
import TaskOutline.Proofs.Outline.References
import TaskOutline.Proofs.Outline.Walk
import TaskOutline.Proofs.Path.Spot
import TaskOutline.Proofs.Property.Declarations
import TaskOutline.Proofs.Report.Agenda
import TaskOutline.Proofs.Report.Folding
import TaskOutline.Proofs.Report.LastSetting
