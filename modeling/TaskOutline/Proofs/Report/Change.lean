import TaskOutline.Proofs.Outline.Change
import TaskOutline.Proofs.Text.Blank
import TaskOutline.Report.Render

/-! # What a report does not show

No report shows the location of a record, or whether its notes end with a newline:
the canonical document closes notes and the listing trims them, and the other
reports leave notes out.  A change to these two (`KeepsText`) changes no report.

Each report is followed through its parts; a part that is a list of nodes has the
changed nodes in the same places.
-/
namespace TaskOutline

/-- A change to records that leaves alone what they declare, and their notes but for
a newline at the end. -/
structure KeepsText (g : Record → Record) : Prop extends KeepsDeclaration g where
  notes : ∀ r, (g r).closedNotes = r.closedNotes

/-! ## The canonical document -/

theorem Record.text_change {g : Record → Record} (hg : KeepsText g) (r : Record) :
    (g r).text = r.text := by
  unfold Record.text Record.frontLines Record.dependsLine
  rw [hg.id, hg.label, hg.status, hg.priority, hg.deadline, hg.depends, hg.notes]

theorem Outline.records_change (g : Record → Record) (t : Outline) :
    (t.change g).records = t.records.map g := by
  unfold Outline.records Outline.change
  rw [List.filterMap_map, List.map_filterMap]
  rfl

/-- Closing notes changes nothing once they are trimmed. -/
theorem trimmed_closedNotes (r : Record) : trimmed r.closedNotes = trimmed r.notes := by
  unfold Record.closedNotes
  split
  · rfl
  · unfold trimmed endLine
    rw [String.toList_append]
    exact congrArg String.ofList (Text.trim_concat_of_blank _ (by decide))

variable {g : Record → Record} (hg : KeepsText g)
include hg

theorem Outline.plainText_change (t : Outline) : (t.change g).plainText = t.plainText := by
  unfold Outline.plainText
  rw [Outline.records_change, List.map_map]
  congr 2
  exact funext (Record.text_change hg)

/-! ## The listing -/

theorem Listing.notesLines_change (n : Node) : notesLines (n.change g) = notesLines n := by
  have hnotes : trimmed (n.change g).notes = trimmed n.notes := by
    unfold Node.notes Node.change
    cases n.record with
    | none => rfl
    | some r =>
      show trimmed (g r).notes = trimmed r.notes
      rw [← trimmed_closedNotes, hg.notes, trimmed_closedNotes]
  rw [notesLines, hnotes, notesLines]

theorem Listing.taskLines_change (n : Node) : taskLines (n.change g) = taskLines n := by
  unfold taskLines dependencyText
  rw [notesLines_change hg, n.heading_change hg.toKeepsDeclaration,
    n.status_change hg.toKeepsDeclaration, n.depends_change hg.toKeepsDeclaration]
  rfl

theorem Listing.text_change (t : Outline) : Listing.text (t.change g) = Listing.text t := by
  unfold Listing.text
  show unlines ("# Tasks" :: (t.nodes.map (Node.change g)).flatMap _) = _
  rw [List.flatMap_map]
  simp only [taskLines_change hg]

/-! ## The table of contents -/

namespace Contents

omit hg in
theorem filterMap_find?_change (t : Outline) (ids : List TaskId) :
    ids.filterMap (t.change g).find? = (ids.filterMap t.find?).map (Node.change g) := by
  rw [List.map_filterMap]
  exact congrArg (List.filterMap · ids) (funext t.find?_change)

theorem blockers_change (t : Outline) (d : Dependencies) (id : TaskId) :
    d.blockers (t.change g) id = (d.blockers t id).map (Node.change g) := by
  unfold Dependencies.blockers
  rw [filterMap_find?_change, List.filter_map]
  congr 2
  funext n
  show (!(n.change g).isComplete) = _
  rw [n.isComplete_change hg.toKeepsDeclaration]

theorem finished_change (t : Outline) (d : Dependencies) (id : TaskId) :
    d.finished (t.change g) id = (d.finished t id).map (Node.change g) := by
  unfold Dependencies.finished
  rw [filterMap_find?_change, List.filter_map]
  congr 2
  exact funext fun n => n.isComplete_change hg.toKeepsDeclaration

theorem statusText_change (t : Outline) (d : Dependencies) (n : Node) :
    statusText (t.change g) d (n.change g) = statusText t d n := by
  have hdeadline : (n.change g).deadline = n.deadline := rfl
  unfold statusText
  rw [n.status_change hg.toKeepsDeclaration, hdeadline,
    show (n.change g).id = n.id from rfl, blockers_change hg]
  cases d.blockers t n.id with
  | nil => rfl
  | cons b rest =>
    have hids : (b :: rest).map (fun b => ((Node.change g) b).id.text) =
        (b :: rest).map fun b => b.id.text := rfl
    rw [List.map_cons]
    simp only [← List.map_cons, List.map_map, Function.comp_def, hids]

theorem entry_change (t : Outline) (d : Dependencies) (depth : Nat) (n : Node) :
    entry (t.change g) d depth (n.change g) = entry t d depth n := by
  have hprogress : progressText (t.change g) d (n.change g) = progressText t d n := by
    unfold progressText
    rw [n.status_change hg.toKeepsDeclaration, show (n.change g).id = n.id from rfl,
      finished_change hg, List.length_map]
  unfold entry
  rw [n.status_change hg.toKeepsDeclaration, n.heading_change hg.toKeepsDeclaration,
    statusText_change hg, hprogress]
  rfl

theorem isFoldable_change (t : Outline) (n : Node) :
    (t.change g).isFoldable (n.change g) = t.isFoldable n := by
  unfold Outline.isFoldable
  rw [show (n.change g).children = n.children from rfl, filterMap_find?_change, List.all_map]
  congr 2
  exact funext fun n => n.isComplete_change hg.toKeepsDeclaration

omit hg in
/-- A walk comes to the changed nodes in the same order. -/
theorem walkFrom_change (t : Outline) {descend descend' : Node → Bool}
    (hd : ∀ n, descend' (n.change g) = descend n) (levels depth : Nat) (id : TaskId) :
    (t.change g).walkFrom descend' levels depth id =
      (t.walkFrom descend levels depth id).map fun (depth, n) => (depth, n.change g) := by
  induction levels generalizing depth id with
  | zero => rfl
  | succ levels ih =>
    unfold Outline.walkFrom
    rw [t.find?_change]
    cases t.find? id with
    | none => rfl
    | some n =>
      show (depth, n.change g) :: (if descend' (n.change g) then _ else _) = _
      rw [hd]
      simp only [List.map_cons]
      congr 1
      split
      · rw [List.map_flatMap]
        exact congrArg (List.flatMap · n.children) (funext fun child => ih (depth + 1) child)
      · rfl

omit hg in
theorem walk_change (t : Outline) (descend : Node → Bool) {descend' : Node → Bool}
    (hd : ∀ n, descend' (n.change g) = descend n) :
    (t.change g).walk descend' =
      (t.walk descend).map fun (depth, n) => (depth, n.change g) := by
  have hheight : (t.change g).height = t.height := by
    unfold Outline.height Outline.change
    rw [List.map_map]
    rfl
  unfold Outline.walk
  rw [hheight, List.map_flatMap]
  exact congrArg (List.flatMap · t.roots) (funext fun id => walkFrom_change t hd t.height 0 id)

theorem text_change (t : Outline) (d : Dependencies) (fold : Bool) :
    Contents.text (t.change g) d fold = Contents.text t d fold := by
  have hfold : ∀ n : Node, (fold && (t.change g).isFoldable (n.change g)) =
      (fold && t.isFoldable n) := fun n => by rw [isFoldable_change hg]
  have hentries : entries (t.change g) d fold = entries t d fold := by
    unfold entries
    dsimp only
    rw [walk_change t (fun n => !(fold && t.isFoldable n)) fun n => by rw [hfold],
      List.map_map]
    refine List.map_congr_left fun (depth, n) _ => ?_
    show entry (t.change g) d depth (n.change g) ++
      (if fold && (t.change g).isFoldable (n.change g) then foldMark (n.change g) else "") = _
    rw [entry_change hg, hfold]
    rfl
  rw [text, hentries, text]

end Contents

/-! ## The calendar -/

namespace Agenda

/-- The agenda with the records of its tasks changed. -/
def change (g : Record → Record) (a : Agenda) : Agenda where
  dated := a.dated.map fun (d, n) => (d, n.change g)
  undated := a.undated.map (Node.change g)

theorem ofOutline_change (t : Outline) : ofOutline (t.change g) = (ofOutline t).change g := by
  have hactive : (t.change g).nodes.filter (fun n => !n.isComplete) =
      (t.nodes.filter fun n => !n.isComplete).map (Node.change g) := by
    show (t.nodes.map (Node.change g)).filter _ = _
    rw [List.filter_map]
    congr 2
    funext n
    show (!(n.change g).isComplete) = _
    rw [n.isComplete_change hg.toKeepsDeclaration]
  -- the order of the dates does not look at the records
  have hsort : ∀ dated : List (Date × Node),
      (dated.map fun (d, n) => (d, n.change g)).mergeSort (fun a b => !decide (b.1 < a.1)) =
        (dated.mergeSort fun a b => !decide (b.1 < a.1)).map fun (d, n) => (d, n.change g) := by
    intro dated
    refine Eq.symm (List.map_mergeSort ?_)
    exact fun _ _ _ _ => rfl
  unfold ofOutline change
  dsimp only
  rw [hactive, List.filterMap_map, List.filter_map]
  congr 1
  rw [← hsort, List.map_filterMap]
  congr 2
  funext n
  show (n.deadline.map fun d => (d, n.change g)) = _
  cases n.deadline <;> rfl

theorem bullet_change (n : Node) : bullet (n.change g) = bullet n := by
  rw [bullet, n.status_change hg.toKeepsDeclaration, n.heading_change hg.toKeepsDeclaration, bullet]

theorem datedLines_change (s : Headings) (dated : List (Date × Node)) :
    datedLines s (dated.map fun (d, n) => (d, n.change g)) = datedLines s dated := by
  induction dated generalizing s with
  | nil => rfl
  | cons entry rest ih =>
    obtain ⟨d, n⟩ := entry
    rw [List.map_cons]
    unfold datedLines
    simp only [bullet_change hg, ih]

theorem text_change (t : Outline) : (ofOutline (t.change g)).text = (ofOutline t).text := by
  rw [ofOutline_change hg]
  unfold text datedSection undatedSection change
  dsimp only
  rw [List.isEmpty_map, List.isEmpty_map, datedLines_change hg, List.map_map]
  simp only [Function.comp_def, bullet_change hg]

end Agenda

/-- **No report changes** when records change in their locations and in how their
notes end. -/
theorem Exporter.write_change (e : Exporter) (t : Outline) (d : Dependencies) (o : Options) :
    e.write (t.change g) d o = e.write t d o := by
  cases e with
  | plain => exact Outline.plainText_change hg t
  | calendar | simple | full =>
    unfold Exporter.write
    rw [Contents.text_change hg, Agenda.text_change hg, Listing.text_change hg]

end TaskOutline
