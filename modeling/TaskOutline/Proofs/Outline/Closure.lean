import TaskOutline.Proofs.Outline.Entries

/-! # The outline is what the records close up to

The identifiers of an outline are those declared and all that lie above them.  Where a
record has the identifier of an entry, the first such record stands in it unchanged;
every other entry is a placeholder.  `Closes` says this of a list of entries and a list
of records.

It holds after each record that is entered, in whatever order parents, children and
repeated identifiers come, since the roster of the records so far answers for them
(`Roster.find?_ofRecords`); the finished outline has the entries of the last roster.
-/
namespace TaskOutline

/-- The record is the first to declare its identifier. -/
def Record.IsFirst (records : List Record) (r : Record) : Prop :=
  ∃ before after, records = before ++ r :: after ∧ ∀ b ∈ before, b.id ≠ r.id

/-- What the entries are that records close up to. -/
structure Closes (records : List Record) (entries : List RosterEntry) : Prop where
  /-- The entries come in the order of their identifiers, none twice. -/
  ascending : Ascending Prod.fst entries
  /-- The identifiers are the beginnings of those declared. -/
  ids : ∀ id, id ∈ entries.map Prod.fst ↔ ∃ r ∈ records, id.segments <+: r.id.segments
  /-- An entry has a record exactly when one declares its identifier. -/
  declared : ∀ id, (∃ r, (id, some r) ∈ entries) ↔ ∃ r ∈ records, r.id = id
  /-- It is the first of them. -/
  first : ∀ id r, (id, some r) ∈ entries → r.id = id ∧ r.IsFirst records
  /-- All other entries are without a record. -/
  placeholder : ∀ id, id ∈ entries.map Prod.fst → (∀ r ∈ records, r.id ≠ id) →
    (id, none) ∈ entries

theorem find?_id_eq_some_iff {records : List Record} {id : TaskId} {r : Record} :
    records.find? (fun r => r.id = id) = some r ↔ r.id = id ∧ r.IsFirst records := by
  rw [List.find?_eq_some_iff_append]
  simp only [decide_eq_true_eq, Bool.not_eq_true', decide_eq_false_iff_not, Record.IsFirst]
  constructor
  · rintro ⟨rfl, before, after, hsplit, hbefore⟩
    exact ⟨rfl, before, after, hsplit, hbefore⟩
  · rintro ⟨rfl, before, after, hsplit, hbefore⟩
    exact ⟨rfl, before, after, hsplit, hbefore⟩

theorem exists_find?_id {records : List Record} {id : TaskId} :
    (∃ r, records.find? (fun r => r.id = id) = some r) ↔ ∃ r ∈ records, r.id = id := by
  rw [← Option.isSome_iff_exists, List.find?_isSome]
  simp only [decide_eq_true_eq]

namespace Roster

theorem mem_ids_iff {s : Roster} {id : TaskId} :
    id ∈ s.entries.map Prod.fst ↔ (s.find? id).isSome := by
  rw [find?, Option.isSome_map, List.find?_isSome]
  simp only [List.mem_map, decide_eq_true_eq]

/-- A roster that answers as records do has the entries they close up to. -/
theorem IsOf.closes {s : Roster} {records : List Record} (hs : s.IsOf records) :
    Closes records s.entries where
  ascending := s.ascending
  ids id := by rw [mem_ids_iff, hs, isSome_entryOf]
  declared id := by
    rw [← exists_find?_id]
    simp only [mem_entries_iff, hs id, entryOf_eq_some_some_iff]
  first id r h := by
    rw [mem_entries_iff, hs, entryOf_eq_some_some_iff] at h
    exact find?_id_eq_some_iff.mp h
  placeholder id hid hnone := by
    rw [mem_ids_iff] at hid
    obtain ⟨record, hrecord⟩ := Option.isSome_iff_exists.mp hid
    cases record with
    | none => exact mem_entries_iff.mpr hrecord
    | some r =>
      have hfind := hrecord
      rw [hs, entryOf_eq_some_some_iff] at hfind
      exact absurd (id_of_find? hfind) (hnone r (List.mem_of_find?_eq_some hfind))

/-- Records are entered one part after the other. -/
theorem declareAll_append (s : Roster) (earlier later : List Record) :
    s.declareAll (earlier ++ later) = s.declareAll earlier >>= fun s => s.declareAll later := by
  induction earlier generalizing s with
  | nil => rfl
  | cons record rest ih =>
    refine Logged.ext ?_ ?_
    · simp only [List.cons_append, declareAll, Logged.value_bind, ih]
    · simp only [List.cons_append, declareAll, Logged.value_bind, Logged.log_bind, ih,
        List.append_assoc]

end Roster

namespace Outline

theorem closes_build (records : List Record) : Closes records (build records).value.entries := by
  rw [entries_build]
  exact Roster.IsOf.closes (Roster.find?_ofRecords records)

/-- **The outline is the prefix closure of its records, and the first declaration
stands.**  After each part of the records has been entered, on the way to the whole, the
entries are what these records close up to, and so are those of the finished outline.
What is reported is each record that is not the first of its identifier, in the order of
the records, at its own place and with the place of the first. -/
theorem build_closes (records : List Record) :
    (∀ entered rest, entered ++ rest = records →
      Roster.ofRecords records = Roster.ofRecords entered >>= (fun s => s.declareAll rest) ∧
        Closes entered (Roster.ofRecords entered).value.entries) ∧
    Closes records (build records).value.entries ∧
    (build records).log = Roster.repeatReports records := by
  refine ⟨?_, closes_build records, log_build records⟩
  rintro entered rest rfl
  exact ⟨Roster.empty.declareAll_append entered rest,
    Roster.IsOf.closes (Roster.find?_ofRecords entered)⟩

end Outline

end TaskOutline
