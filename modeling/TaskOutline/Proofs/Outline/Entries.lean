import TaskOutline.Outline.Cycles
import TaskOutline.Outline.Inheritance
import TaskOutline.Proofs.Outline.Roster
import TaskOutline.Report.Plain

/-! # The entries of an outline

An outline has the nodes that its roster has entries for, with the same records;
settling what they inherit changes neither.  So what an outline of records contains can
be read off the records.
-/
namespace TaskOutline.Outline

/-- The identifiers of the nodes with the records that were declared for them. -/
def entries (t : Outline) : List RosterEntry := t.nodes.map fun n => (n.id, n.record)

theorem map_fst_entries (t : Outline) : t.entries.map Prod.fst = t.ids := by
  rw [entries, List.map_map]
  rfl

theorem ascending_ids (t : Outline) : Ascending (fun id => id) t.ids :=
  List.pairwise_map.mpr t.ascending

theorem ids_nodup (t : Outline) : t.ids.Nodup := t.ascending.nodup_map

theorem find?_eq_some_iff {t : Outline} {id : TaskId} {n : Node} :
    t.find? id = some n ↔ n ∈ t.nodes ∧ n.id = id :=
  Ascending.find?_eq_some_iff t.ascending

theorem entries_ofRoster (s : Roster) : (ofRoster s).entries = s.entries := by
  unfold entries ofRoster
  rw [List.map_map]
  exact List.map_id' _

theorem entries_settle (t : Outline) : t.settle.entries = t.entries := by
  suffices h : ∀ nodes settled : List Node,
      (Node.settleAll settled nodes).map (fun n => (n.id, n.record)) =
        nodes.map fun n => (n.id, n.record) from h t.nodes []
  intro nodes
  induction nodes with
  | nil => exact fun _ => rfl
  | cons n rest ih =>
    intro settled
    simp only [Node.settleAll, List.map_cons, ih, Node.settle]

theorem records_eq (t : Outline) : t.records = t.entries.filterMap Prod.snd := by
  unfold records entries
  rw [List.filterMap_map]
  rfl

/-- The outline of records, settled. -/
def ofRecords (records : List Record) : Outline := (build records).value.settle

theorem entries_ofRecords (records : List Record) :
    (ofRecords records).entries = (Roster.ofRecords records).value.entries := by
  rw [ofRecords, entries_settle]
  exact entries_ofRoster _

theorem log_build (records : List Record) :
    (build records).log = Roster.repeatReports records := by
  rw [← Roster.log_ofRecords, build, Logged.log_bind, Logged.log_pure, List.append_nil]

/-- The finished outline has the entries of the roster of all records. -/
theorem entries_build (records : List Record) :
    (build records).value.entries = (Roster.ofRecords records).value.entries :=
  entries_ofRoster _

theorem records_build (records : List Record) :
    (build records).value.records = (Roster.ofRecords records).value.kept := by
  rw [records_eq, entries_build]
  rfl

/-- The records of the outline are those that its roster keeps. -/
theorem records_ofRecords (records : List Record) :
    (ofRecords records).records = (Roster.ofRecords records).value.kept := by
  rw [records_eq, entries_ofRecords]
  rfl

theorem contains_iff_entries {t : Outline} {id : TaskId} :
    t.contains id = true ↔ ∃ e ∈ t.entries, e.1 = id := by
  unfold contains find? entries
  simp only [List.find?_isSome, decide_eq_true_eq, List.mem_map]
  constructor
  · rintro ⟨n, hn, rfl⟩
    exact ⟨_, ⟨n, hn, rfl⟩, rfl⟩
  · rintro ⟨_, ⟨n, hn, rfl⟩, rfl⟩
    exact ⟨n, hn, rfl⟩

/-- An outline of records contains an identifier when one of the records begins
with it. -/
theorem contains_ofRecords {records : List Record} {id : TaskId} :
    (ofRecords records).contains id = true ↔ ∃ r ∈ records, id.segments <+: r.id.segments := by
  rw [contains_iff_entries, entries_ofRecords, ← isSome_entryOf, ← Roster.find?_ofRecords,
    Roster.find?, Option.isSome_map, List.find?_isSome]
  simp only [decide_eq_true_eq]

theorem mem_entries_ofRecords {records : List Record} {id : TaskId} {r : Record} :
    (id, some r) ∈ (ofRecords records).entries ↔
      records.find? (fun x => x.id = id) = some r := by
  rw [entries_ofRecords, Roster.mem_entries_iff, Roster.find?_ofRecords,
    entryOf_eq_some_some_iff]

end Outline

end TaskOutline
