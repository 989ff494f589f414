import Mathlib.Data.Finset.Card
import TaskOutline.Proofs.Load.Problems
import TaskOutline.Proofs.Outline.Closure
import TaskOutline.Proofs.Report.Change

/-! # The order of declarations does not matter

Records may be declared in any order and in any files.  As long as none repeats an
identifier, the outline is the same but for the places its records were read from, and
so is everything that is said about it.

A roster answers for its records (`Roster.find?_ofRecords`), and what records without
repetitions say of an identifier does not depend on their order (`entryOf_perm`).  Places
are taken away by `Record.unplaced`, before the outline is built or after; no report
shows them (`Exporter.write_change`), and in diagnostics they are all that changes
(`Dependencies.log_check_unplaced`).

Records that repeat an identifier are reported one by one, and how many there are is what
is left over when each identifier is counted once (`Roster.length_repeatReports`).
-/
namespace TaskOutline

/-! ## Places -/

/-- The diagnostic without its place. -/
def Diagnostic.unplaced (d : Diagnostic) : Diagnostic :=
  { d with location := d.location.map fun _ => ⟨"", 0⟩ }

theorem keepsText_unplaced : KeepsText Record.unplaced where
  id _ := rfl
  label _ := rfl
  status _ := rfl
  priority _ := rfl
  deadline _ := rfl
  depends _ := rfl
  notes _ := rfl

theorem map_id_unplaced (records : List Record) :
    (records.map Record.unplaced).map Record.id = records.map Record.id := by
  rw [List.map_map]
  rfl

theorem Node.location?_unplaced (n : Node) :
    (n.change Record.unplaced).location? = n.location?.map fun _ => ⟨"", 0⟩ := by
  obtain ⟨id, record, children, priority, deadline⟩ := n
  cases record <;> rfl

namespace Dependencies

theorem nodeReport_unplaced (t : Outline) (pair : TaskId × TaskId) :
    nodeReport (t.change Record.unplaced) pair = (nodeReport t pair).unplaced := by
  rw [nodeReport, Outline.find?_change]
  cases h : t.find? pair.1 with
  | none => simp [nodeReport, Diagnostic.unplaced, h]
  | some n => simp [nodeReport, Diagnostic.unplaced, h, Node.location?_unplaced]

theorem cycleWarning_unplaced (t : Outline) (cycle : List TaskId) :
    cycleWarning (t.change Record.unplaced) cycle = (cycleWarning t cycle).unplaced := by
  have hfirst : (cycle.head?.bind (t.change Record.unplaced).find?) =
      (cycle.head?.bind t.find?).map (Node.change Record.unplaced) := by
    cases cycle.head? with
    | none => rfl
    | some id => exact t.find?_change id
  rw [cycleWarning, hfirst]
  cases h : cycle.head?.bind t.find? with
  | none => simp [cycleWarning, Diagnostic.unplaced, h]
  | some n => simp [cycleWarning, Diagnostic.unplaced, h, Node.location?_unplaced]

/-- **Without the places of the records the check reports the same**, without places. -/
theorem log_check_unplaced (t : Outline) :
    (check (t.change Record.unplaced)).log = (check t).log.map Diagnostic.unplaced := by
  have hmissing : (ofOutline (t.change Record.unplaced)).log =
      (ofOutline t).log.map Diagnostic.unplaced := by
    rw [log_eq_map, log_eq_map, danglingPairs_change keepsText_unplaced.toKeepsDeclaration,
      List.map_map]
    exact List.map_congr_left fun pair _ => nodeReport_unplaced t pair
  have hcycles : cycleWarnings (t.change Record.unplaced) =
      (cycleWarnings t).map Diagnostic.unplaced := by
    rw [cycleWarnings, value_ofOutline_change keepsText_unplaced.toKeepsDeclaration,
      cycleWarnings, List.map_map]
    exact List.map_congr_left fun cycle _ => cycleWarning_unplaced t cycle
  rw [log_check, log_check, hmissing, hcycles, List.map_append]

end Dependencies

/-! ## Records in another order -/

/-- Records that repeat no identifier say the same of each in any order. -/
theorem entryOf_perm {xs ys : List Record} (h : xs.Perm ys) (hx : (xs.map Record.id).Nodup)
    (id : TaskId) : entryOf xs id = entryOf ys id := by
  have hy : (ys.map Record.id).Nodup := (h.map Record.id).nodup_iff.mp hx
  have hfind : xs.find? (fun r => r.id = id) = ys.find? fun r => r.id = id := by
    apply Option.ext
    intro r
    rw [find?_eq_some_iff_of_nodup hx, find?_eq_some_iff_of_nodup hy, h.mem_iff]
  rw [entryOf, hfind, h.any_eq, entryOf]

theorem Roster.ofRecords_perm {xs ys : List Record} (h : xs.Perm ys)
    (hx : (xs.map Record.id).Nodup) : (ofRecords xs).value = (ofRecords ys).value := by
  apply ext_find?
  intro id
  rw [find?_ofRecords, find?_ofRecords, entryOf_perm h hx]

theorem Outline.ofRecords_perm {xs ys : List Record} (h : xs.Perm ys)
    (hx : (xs.map Record.id).Nodup) : ofRecords xs = ofRecords ys := by
  show (ofRoster (Roster.ofRecords xs).value).settle = (ofRoster (Roster.ofRecords ys).value).settle
  rw [Roster.ofRecords_perm h hx]

/-! ## Repeated identifiers -/

namespace Roster

theorem repeatReports_concat (records : List Record) (record : Record) :
    repeatReports (records ++ [record]) = repeatReports records ++ repeatReport records record := by
  have hearlier : (records.zipIdx.flatMap fun p =>
      repeatReport ((records ++ [record]).take p.2) p.1) = repeatReports records := by
    rw [repeatReports, List.flatMap_def, List.flatMap_def]
    refine congrArg List.flatten (List.map_congr_left ?_)
    rintro ⟨r, i⟩ hi
    obtain ⟨hlt, -⟩ := List.getElem?_eq_some_iff.mp (List.mk_mem_zipIdx_iff_getElem?.mp hi)
    show repeatReport ((records ++ [record]).take i) r = repeatReport (records.take i) r
    rw [List.take_append_of_le_length hlt.le]
  rw [repeatReports, List.zipIdx_append, List.flatMap_append]
  exact congrArg₂ (· ++ ·) hearlier (by simp)

/-- **As many records are reported as there are more records than identifiers.** -/
theorem length_repeatReports (records : List Record) :
    (repeatReports records).length + (records.map Record.id).toFinset.card = records.length := by
  induction records using List.reverseRecOn with
  | nil => rfl
  | append_singleton records record ih =>
    have hids : ((records ++ [record]).map Record.id).toFinset =
        insert record.id (records.map Record.id).toFinset := by
      ext id
      simp
    rw [repeatReports_concat, List.length_append, hids, List.length_append, List.length_singleton]
    by_cases h : ∃ r ∈ records, r.id = record.id
    · -- an earlier record has the identifier: one report more, and no identifier
      obtain ⟨first, hfirst⟩ := exists_find?_id.mpr h
      have hmem : record.id ∈ (records.map Record.id).toFinset := by simpa using h
      rw [Finset.insert_eq_of_mem hmem, repeatReport, hfirst, List.length_singleton]
      omega
    · -- the identifier is new, and nothing is reported
      have hnone : records.find? (fun r => r.id = record.id) = none := by
        simp only [List.find?_eq_none, decide_eq_true_eq]
        exact fun r hr hid => h ⟨r, hr, hid⟩
      have hmem : record.id ∉ (records.map Record.id).toFinset := by simpa using h
      rw [Finset.card_insert_of_notMem hmem, repeatReport, hnone, List.length_nil]
      omega

end Roster

/-! ## The outline -/

namespace Outline

/-- The identifiers of the nodes that were declared, in order. -/
def explicitIds (t : Outline) : List TaskId :=
  (t.nodes.filter fun n => !n.isImplicit).map Node.id

theorem ascending_explicitIds (t : Outline) : Ascending (fun id => id) t.explicitIds :=
  List.pairwise_map.mpr (t.ascending.filter _)

theorem mem_explicitIds_iff {t : Outline} {id : TaskId} :
    id ∈ t.explicitIds ↔ ∃ r, (id, some r) ∈ t.entries := by
  simp only [explicitIds, entries, List.mem_map, List.mem_filter, Prod.mk.injEq]
  constructor
  · rintro ⟨n, ⟨hn, hrecord⟩, rfl⟩
    cases hr : n.record with
    | none => simp [Node.isImplicit, hr] at hrecord
    | some r => exact ⟨r, n, hn, rfl, hr⟩
  · rintro ⟨r, n, hn, rfl, hr⟩
    exact ⟨n, ⟨hn, by simp [Node.isImplicit, hr]⟩, rfl⟩

variable {xs ys : List Record}

/-- The identifiers of an outline, and those that are declared in it, depend on the
identifiers of the records alone. -/
theorem ids_build_of_perm (h : (xs.map Record.id).Perm (ys.map Record.id)) :
    (build xs).value.ids = (build ys).value.ids ∧
      (build xs).value.explicitIds = (build ys).value.explicitIds := by
  have hsame : ∀ P : TaskId → Prop, (∃ r ∈ xs, P r.id) ↔ ∃ r ∈ ys, P r.id := by
    intro P
    have hxs : (∃ r ∈ xs, P r.id) ↔ ∃ id ∈ xs.map Record.id, P id := by simp
    have hys : (∃ r ∈ ys, P r.id) ↔ ∃ id ∈ ys.map Record.id, P id := by simp
    simp only [hxs, hys, h.mem_iff]
  have hx := closes_build xs
  have hy := closes_build ys
  constructor
  · apply (ascending_ids _).ext (ascending_ids _)
    intro id
    rw [← map_fst_entries, ← map_fst_entries, hx.ids, hy.ids]
    exact hsame fun other => id.segments <+: other.segments
  · apply (ascending_explicitIds _).ext (ascending_explicitIds _)
    intro id
    rw [mem_explicitIds_iff, mem_explicitIds_iff, hx.declared, hy.declared]
    exact hsame fun other => other = id

/-- **Neither the order of declarations matters nor where they stand.**  Records that are
the same but for their order and their locations make outlines with the same nodes, of
which the same are declared, and repeat identifiers equally often.  If none repeats one,
nothing is reported when the outlines are built; they are the same but for the locations
of their records, and so are the reports on their dependencies, in the same order; and
every report that is written about the one is written about the other. -/
theorem same_of_perm (h : (xs.map Record.unplaced).Perm (ys.map Record.unplaced)) :
    ((xs.map Record.id).Nodup →
      let t := (build xs).value.settle
      let u := (build ys).value.settle
      (build xs).log = [] ∧ (build ys).log = [] ∧
      t.change Record.unplaced = u.change Record.unplaced ∧
      (Dependencies.check t).log.map Diagnostic.unplaced =
        (Dependencies.check u).log.map Diagnostic.unplaced ∧
      (Dependencies.check t).value = (Dependencies.check u).value ∧
      ∀ (e : Exporter) (o : Options),
        e.write t (Dependencies.check t).value o = e.write u (Dependencies.check u).value o) ∧
    (build xs).value.ids = (build ys).value.ids ∧
    (build xs).value.explicitIds = (build ys).value.explicitIds ∧
    ((build xs).log.filter fun d => d.problem.isRepeat).length =
      ((build ys).log.filter fun d => d.problem.isRepeat).length := by
  have hids : (xs.map Record.id).Perm (ys.map Record.id) := by
    have hmap := h.map Record.id
    rwa [map_id_unplaced, map_id_unplaced] at hmap
  obtain ⟨hnodes, hexplicit⟩ := ids_build_of_perm hids
  refine ⟨fun hx => ?_, hnodes, hexplicit, ?_⟩
  · intro t u
    have hg := keepsText_unplaced.toKeepsDeclaration
    have hsame : t.change Record.unplaced = u.change Record.unplaced := by
      have hx' : ((xs.map Record.unplaced).map Record.id).Nodup := by rwa [map_id_unplaced]
      show (ofRecords xs).change Record.unplaced = (ofRecords ys).change Record.unplaced
      rw [← ofRecords_change hg, ← ofRecords_change hg, ofRecords_perm h hx']
    have hvalue : (Dependencies.check t).value = (Dependencies.check u).value := by
      rw [Dependencies.value_check, ← Dependencies.value_ofOutline_change hg, hsame,
        Dependencies.value_ofOutline_change hg, ← Dependencies.value_check]
    refine ⟨?_, ?_, hsame, ?_, hvalue, fun e o => ?_⟩
    · rw [log_build, Roster.repeatReports_of_nodup hx]
    · rw [log_build, Roster.repeatReports_of_nodup (hids.nodup_iff.mp hx)]
    · rw [← Dependencies.log_check_unplaced, hsame, Dependencies.log_check_unplaced]
    · rw [hvalue, ← e.write_change keepsText_unplaced, hsame, e.write_change keepsText_unplaced]
  · -- as many as there are more records than identifiers
    have hcount : xs.length = ys.length := by simpa using h.length_eq
    have hx := Roster.length_repeatReports xs
    have hy := Roster.length_repeatReports ys
    rw [List.toFinset_eq_of_perm _ _ hids] at hx
    rw [log_build, log_build, Source.filter_isRepeat_repeats, Source.filter_isRepeat_repeats]
    omega

/-- A child with a dependency that leads nowhere, and its parent after it. -/
def childFirst : List Record :=
  [{ Record.bare .firstUnderFirst ⟨"<stdin>", 1⟩ with
      depends := IdSet.ofList [.second] },
    .bare .first ⟨"<stdin>", 5⟩]

/-- The same two tasks, the parent in a file of its own. -/
def parentFirst : List Record :=
  [.bare .first ⟨"parent.md", 1⟩,
    { Record.bare .firstUnderFirst ⟨"<stdin>", 4⟩ with
      depends := IdSet.ofList [.second] }]

/-- All that is reported about the two tasks is the same wherever they stand. -/
theorem same_of_perm_family :
    (childFirst.map Record.unplaced).Perm (parentFirst.map Record.unplaced) ∧
    (childFirst.map Record.id).Nodup ∧
    (build childFirst).value.settle.change Record.unplaced =
      (build parentFirst).value.settle.change Record.unplaced ∧
    (Dependencies.check (build childFirst).value.settle).log.map Diagnostic.unplaced =
      (Dependencies.check (build parentFirst).value.settle).log.map Diagnostic.unplaced := by
  have hperm : (childFirst.map Record.unplaced).Perm (parentFirst.map Record.unplaced) :=
    List.Perm.swap _ _ _
  have hnodup : (childFirst.map Record.id).Nodup := by decide
  obtain ⟨hsame, -⟩ := same_of_perm hperm
  obtain ⟨-, -, houtline, hlog, -⟩ := hsame hnodup
  exact ⟨hperm, hnodup, houtline, hlog⟩

end Outline

end TaskOutline
