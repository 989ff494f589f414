import TaskOutline.Proofs.Document.Readable
import TaskOutline.Proofs.Load.Problems
import TaskOutline.Proofs.Report.Change

/-! # The canonical document stands for the document

A document that has been loaded is written out in its canonical form and loaded
again, in whatever workspace.  The records come back in another order, at other
places, and with their notes closed; the outline and all its reports stay the same.

The two outlines are compared after `Record.canonical`, which takes away what is
lost on the way.  It may be applied to records before or after they are put in
place (`Outline.ofRecords_change`), and no report notices it
(`Exporter.write_change`).
-/
namespace TaskOutline

/-! ## What is lost -/

/-- A record without what its text does not tell: where it stood, and whether its
notes were closed. -/
def Record.canonical (r : Record) : Record :=
  { r with notes := r.closedNotes, location := ⟨"", 0⟩ }

theorem Record.closedNotes_idem (r : Record) {r' : Record} (h : r'.notes = r.closedNotes) :
    r'.closedNotes = r.closedNotes := by
  rw [closedNotes_of_closed, h]
  rw [h]
  exact r.closed_closedNotes

theorem keepsText_canonical : KeepsText Record.canonical where
  id _ := rfl
  label _ := rfl
  status _ := rfl
  priority _ := rfl
  deadline _ := rfl
  depends _ := rfl
  notes r := r.closedNotes_idem rfl

theorem Record.canonical_placed (origin : String) (n : Nat) (r : Record) :
    (r.placed origin n).canonical = r.canonical := by
  have hnotes : (r.placed origin n).closedNotes = r.closedNotes := r.closedNotes_idem rfl
  unfold canonical
  rw [hnotes]
  rfl

theorem map_canonical_placedFrom (origin : String) (n : Nat) (records : List Record) :
    (placedFrom origin n records).map Record.canonical = records.map Record.canonical := by
  induction records generalizing n with
  | nil => rfl
  | cons r rest ih => rw [placedFrom, List.map_cons, List.map_cons, ih, Record.canonical_placed]

theorem map_id_placedFrom (origin : String) (n : Nat) (records : List Record) :
    (placedFrom origin n records).map Record.id = records.map Record.id := by
  induction records generalizing n with
  | nil => rfl
  | cons r rest ih =>
    rw [placedFrom, List.map_cons, List.map_cons, ih]
    rfl

/-! ## The records of the text -/

/-- The records that stand make the same roster again. -/
theorem Roster.ofRecords_kept (records : List Record) :
    (ofRecords (ofRecords records).value.kept).value = (ofRecords records).value := by
  refine ext_find? fun id => ?_
  rw [find?_ofRecords, find?_ofRecords, entryOf_kept]

/-- The records of an outline make the same outline again. -/
theorem Outline.ofRecords_records (records : List Record) :
    ofRecords (ofRecords records).records = ofRecords records := by
  rw [records_ofRecords]
  show (ofRoster (Roster.ofRecords _).value).settle = (ofRoster (Roster.ofRecords _).value).settle
  rw [Roster.ofRecords_kept]

namespace Source

/-- A text from standard input. -/
def ofStdin (text : String) : Source := { text := text }

theorem origin_ofStdin (text : String) : (ofStdin text).origin = "<stdin>" := rfl

end Source

namespace Outline

/-- The outline that is read from a canonical document. -/
def reread (t : Outline) : Outline := ofRecords (placedFrom "<stdin>" 1 t.records)

/-- It is the one that the document was written from, but for what is lost. -/
theorem change_reread (records : List Record) :
    (ofRecords records).reread.change Record.canonical =
      (ofRecords records).change Record.canonical := by
  have hg := keepsText_canonical.toKeepsDeclaration
  rw [reread, ← ofRecords_change hg, map_canonical_placedFrom, ofRecords_change hg,
    ofRecords_records]

theorem dependencies_reread (records : List Record) :
    (Dependencies.ofOutline (ofRecords records).reread).value =
      (Dependencies.ofOutline (ofRecords records)).value := by
  have hg := keepsText_canonical.toKeepsDeclaration
  rw [← Dependencies.value_ofOutline_change hg, change_reread,
    Dependencies.value_ofOutline_change hg]

theorem danglingPairs_reread (records : List Record) :
    Dependencies.danglingPairs (ofRecords records).reread =
      Dependencies.danglingPairs (ofRecords records) := by
  have hg := keepsText_canonical.toKeepsDeclaration
  rw [← Dependencies.danglingPairs_change hg, change_reread, Dependencies.danglingPairs_change hg]

theorem write_reread (records : List Record) (e : Exporter) (d : Dependencies) (o : Options) :
    e.write (ofRecords records).reread d o = e.write (ofRecords records) d o := by
  rw [← e.write_change keepsText_canonical, change_reread, e.write_change keepsText_canonical]

end Outline

/-- A canonical document is not empty when there were records. -/
theorem placedFrom_ne_nil (origin : String) (n : Nat) {records : List Record}
    (h : records ≠ []) : placedFrom origin n (Outline.ofRecords records).records ≠ [] := by
  rw [Outline.records_ofRecords]
  obtain ⟨r, rest, hcons⟩ := List.exists_cons_of_ne_nil (Roster.kept_ne_nil h)
  rw [hcons]
  exact List.cons_ne_nil _ _

/-- A canonical document declares no identifier twice. -/
theorem repeatReports_placedFrom (origin : String) (n : Nat) (records : List Record) :
    Roster.repeatReports (placedFrom origin n (Outline.ofRecords records).records) = [] := by
  apply Roster.repeatReports_of_nodup
  rw [map_id_placedFrom, Outline.records_ofRecords]
  exact (Roster.ascending_kept records).nodup_map

/-! ## Reports about the text -/

/-- The cycle that a problem is about. -/
def Problem.cycle? : Problem → Option (List TaskId)
  | .dependencyCycle cycle => some cycle
  | _ => none

/-- The dependency cycles that are reported, in order. -/
def reportedCycles (ds : List Diagnostic) : List (List TaskId) :=
  ds.filterMap fun d => d.problem.cycle?

theorem reportedCycles_append (xs ys : List Diagnostic) :
    reportedCycles (xs ++ ys) = reportedCycles xs ++ reportedCycles ys :=
  List.filterMap_append

theorem reportedCycles_cycleWarnings (t : Outline) :
    reportedCycles (Dependencies.cycleWarnings t) = (Dependencies.ofOutline t).value.cycles := by
  unfold reportedCycles Dependencies.cycleWarnings
  rw [List.filterMap_map]
  exact List.filterMap_some

namespace Source

variable {source : Source} {w : Workspace}

/-- A run without errors repeats no identifier and leaves no reference dangling. -/
theorem completeLog_of_success (h : hasErrors (source.completeLog w []) = false) :
    source.completeLog w [] = (source.records w).log ++
      Dependencies.cycleWarnings (Outline.ofRecords (source.records w).value) ∧
    Dependencies.danglingPairs (Outline.ofRecords (source.records w).value) = [] := by
  rw [hasErrors_eq_false_iff, completeLog_eq] at h
  have hrepeat : Roster.repeatReports (source.records w).value = [] := by
    refine List.eq_nil_iff_forall_not_mem.mpr fun d hd => ?_
    have herror := (Roster.repeatReports_isError hd).1
    rw [h d (by simp [hd])] at herror
    cases herror
  have hdangling : Dependencies.danglingPairs (Outline.ofRecords (source.records w).value) = [] := by
    refine List.eq_nil_iff_forall_not_mem.mpr fun pair hpair => ?_
    have hmem := List.mem_map_of_mem (f := Dependencies.danglingReport (source.records w).value) hpair
    have hnot := h _ (List.mem_append_left _ (List.mem_append_right _ hmem))
    cases hnot
  refine ⟨?_, hdangling⟩
  rw [completeLog_eq, hrepeat, hdangling, List.append_nil, List.map_nil, List.append_nil]

theorem reportedCycles_early : reportedCycles (source.records w).log = [] := by
  -- cycles are found at a later stage
  refine List.filterMap_eq_nil_iff.mpr fun d hd => ?_
  have hstage := source.records_reports w d hd
  cases hp : d.problem with
  | dependencyCycle cycle => simp [hp, Problem.stage] at hstage
  | _ => rfl

/-- What a run that succeeds comes to. -/
theorem render_of_success {e : Exporter} {o : Options}
    (h : (source.render w e o).isSuccess = true) :
    (source.records w).value ≠ [] ∧ hasErrors (source.completeLog w []) = false ∧
      ∀ e o, source.render w e o =
        ⟨e.write (Outline.ofRecords (source.records w).value)
          (Dependencies.ofOutline (Outline.ofRecords (source.records w).value)).value o,
          source.completeLog w []⟩ := by
  cases hload : source.load w [] with
  | mk doc log =>
    cases doc with
    | none =>
      have hsome := source.isSome_load w []
      rw [hload] at hsome
      rw [render_of_load_none hload, Report.isSuccess] at h
      rw [h] at hsome
      cases hsome
    | some doc =>
      obtain ⟨hr, rfl, rfl, hlog⟩ := load_eq_some hload
      exact ⟨hr, hlog, fun e o => render_of_load hload e o⟩

/-- **Loading a canonical document** gives the outline again, with warnings about its
dependency cycles. -/
theorem load_plainText {records : List Record} (hne : records ≠ [])
    (hwritable : ∀ r ∈ (Outline.ofRecords records).records, r.Writable)
    (hdangling : Dependencies.danglingPairs (Outline.ofRecords records) = []) (w : Workspace) :
    (ofStdin (Outline.ofRecords records).plainText).load w [] =
      (some ⟨(Outline.ofRecords records).reread,
          (Dependencies.ofOutline (Outline.ofRecords records).reread).value⟩,
        Dependencies.cycleWarnings (Outline.ofRecords records).reread) := by
  have hnone : Dependencies.danglingPairs (Outline.ofRecords records).reread = [] := by
    rw [Outline.danglingPairs_reread, hdangling]
  exact load_of_tasks (readDocument_joinText _ hwritable) (placedFrom_ne_nil "<stdin>" 1 hne)
    (repeatReports_placedFrom _ _ _) hnone

/-- **The canonical document is a faithful copy.**  Where a run that writes it
succeeds, its text read from standard input, with whatever files at hand, gives every
report that the source itself gives.  All that is reported on the way are warnings
about dependency cycles, and these are the cycles of the first run in the same
order. -/
theorem render_plain_again (source : Source) (w w' : Workspace) (o : Options)
    (h : (source.render w .plain o).isSuccess = true) (e : Exporter) (c : Options) :
    let first := source.render w .plain o
    let again := (ofStdin first.text).render w' e c
    again.isSuccess = true ∧ again.text = (source.render w e c).text ∧
      (∀ d ∈ again.diagnostics, d.severity = .warning ∧
        ∃ cycle, d.problem = .dependencyCycle cycle) ∧
      reportedCycles again.diagnostics = reportedCycles first.diagnostics := by
  obtain ⟨hne, hsuccess, hrender⟩ := render_of_success h
  obtain ⟨hlog, hdangling⟩ := completeLog_of_success hsuccess
  have hwritable : ∀ r ∈ (Outline.ofRecords (source.records w).value).records, r.Writable := by
    intro r hkept
    rw [Outline.records_ofRecords] at hkept
    exact source.forall_mem_records (fun _ _ _ => writable_of_read) w r
      (Roster.mem_of_mem_kept hkept)
  intro first again
  -- the first run writes its outline out, and the second has it again
  have hfirst : first = ⟨(Outline.ofRecords (source.records w).value).plainText,
      source.completeLog w []⟩ := hrender .plain o
  have hagain : again = ⟨e.write (Outline.ofRecords (source.records w).value).reread
      (Dependencies.ofOutline (Outline.ofRecords (source.records w).value).reread).value c,
      Dependencies.cycleWarnings (Outline.ofRecords (source.records w).value).reread⟩ := by
    show (ofStdin first.text).render w' e c = _
    rw [hfirst]
    exact render_of_load (load_plainText hne hwritable hdangling w') e c
  have hwarnings : ∀ d ∈ Dependencies.cycleWarnings
      (Outline.ofRecords (source.records w).value).reread,
      d.severity = .warning ∧ ∃ cycle, d.problem = .dependencyCycle cycle :=
    fun d hd => Dependencies.mem_cycleWarnings hd
  rw [hagain, hfirst, hrender e c]
  dsimp only
  refine ⟨?_, ?_, hwarnings, ?_⟩
  · rw [Report.isSuccess, Dependencies.hasErrors_cycleWarnings]
    rfl
  · rw [Outline.dependencies_reread, Outline.write_reread]
  · rw [hlog, reportedCycles_append, reportedCycles_early, List.nil_append,
      reportedCycles_cycleWarnings, reportedCycles_cycleWarnings, Outline.dependencies_reread]

/-- Two tasks that are out of order, the second with notes that are not closed. -/
def twoTasks : Source := ofStdin "---\ntask 2\n---\n---\ntask 1\ndepends 2\n---\nSoon"

/-- The identifier at the top with this number. -/
def topId (n : Nat) (h : IsSegment n) : TaskId := ⟨[n], by simp, by simpa using h⟩

/-- The records of the two tasks. -/
def twoRecords : List Record :=
  [.bare (topId 2 (by decide)) ⟨"<stdin>", 1⟩,
    { Record.bare (topId 1 (by decide)) ⟨"<stdin>", 4⟩ with
      depends := IdSet.ofList [topId 2 (by decide)]
      notes := "Soon" }]

theorem isSuccess_twoTasks (w : Workspace) (e : Exporter) (o : Options) :
    (twoTasks.render w e o).isSuccess = true := by
  have hdangling : Dependencies.danglingPairs (Outline.ofRecords twoRecords) = [] := by
    refine List.eq_nil_iff_forall_not_mem.mpr fun (n, d) hmem => ?_
    obtain ⟨⟨r, hr, hd⟩, hnone⟩ := Dependencies.mem_danglingPairs.mp hmem
    have hd' : d = topId 2 (by decide) := by
      rcases List.mem_cons.mp (List.mem_of_find?_eq_some hr) with rfl | hr
      · cases hd
      · rw [List.mem_singleton.mp hr] at hd
        exact List.mem_singleton.mp (IdSet.mem_ofList.mp hd)
    exact hnone _ List.mem_cons_self (hd' ▸ List.prefix_rfl)
  have hread : readDocument twoTasks.origin twoTasks.text = ⟨twoRecords.map .task, []⟩ := rfl
  have hload := load_of_tasks (w := w) hread (List.cons_ne_nil _ _) rfl hdangling
  obtain ⟨-, -, -, hlog⟩ := load_eq_some hload
  rw [render_of_load hload, Report.isSuccess, hlog]
  rfl

/-- The full report about the canonical document of the two tasks is the one about
them. -/
theorem render_plain_again_twoTasks :
    let w := Shelf.empty.workspace ⟨"."⟩
    let first := twoTasks.render w .plain {}
    let again := (ofStdin first.text).render w .full {}
    first.isSuccess = true ∧ again.isSuccess = true ∧
      again.text = (twoTasks.render w .full {}).text := by
  intro w first again
  have hsuccess : first.isSuccess = true := isSuccess_twoTasks w .plain {}
  obtain ⟨hagain, htext, -, -⟩ := render_plain_again twoTasks w w {} hsuccess .full {}
  exact ⟨hsuccess, hagain, htext⟩

end Source

end TaskOutline
