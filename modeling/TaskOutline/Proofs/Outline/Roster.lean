import TaskOutline.Outline.Roster
import TaskOutline.Proofs.Identifier.Ancestors

/-! # What a roster says of an identifier

A roster is filled record by record, and how a record is entered depends on what
came before it: its identifier may be new, may have an entry without a record, or
may have one with.  What comes out does not depend on that.  `entryOf` reads the
answer off the records themselves, and `find?_ofRecords` proves that the roster
gives it.

The invariant is `IsOf`: the roster answers for the records entered so far as
`entryOf` does.  It carries with it that the entries go up with each identifier,
which is what `Roster.declare` relies on when it stops at the first ancestor that
has an entry.
-/
namespace TaskOutline

/-! ## Elements by their identifiers -/

/-- Where no two elements have one identifier, an element is what is found under its own. -/
theorem find?_eq_some_iff_of_nodup {α : Type} {key : α → TaskId} {xs : List α}
    (h : (xs.map key).Nodup) {id : TaskId} {x : α} :
    xs.find? (fun y => key y = id) = some x ↔ x ∈ xs ∧ key x = id := by
  constructor
  · intro hf
    exact ⟨List.mem_of_find?_eq_some hf, by simpa using List.find?_some hf⟩
  · rintro ⟨hx, rfl⟩
    induction xs with
    | nil => cases hx
    | cons y ys ih =>
      obtain ⟨hnew, hys⟩ := List.nodup_cons.mp h
      rcases List.mem_cons.mp hx with rfl | hx
      · simp
      · have hne : key y ≠ key x := fun heq => hnew (heq ▸ List.mem_map_of_mem hx)
        simp [hne, ih hys hx]

namespace Ascending

variable {α : Type} {key : α → TaskId}

/-- Placing an element changes what is found under its own identifier only. -/
theorem find?_place (x : α) (id : TaskId) (xs : List α) :
    (place key x xs).find? (fun y => key y = id) =
      if key x = id then some x else xs.find? (fun y => key y = id) := by
  induction xs with
  | nil => by_cases h : key x = id <;> simp [place, h]
  | cons y ys ih =>
    unfold place
    split
    · by_cases h : key x = id <;> simp [h]
    · split
      · rename_i heq
        by_cases h : key x = id <;> simp [h, ← heq]
      · rename_i hne
        by_cases h : key y = id
        · simp [h, show key x ≠ id from fun hx => hne (hx.trans h.symm)]
        · simp [h, ih]

theorem nodup_map {xs : List α} (h : Ascending key xs) : (xs.map key).Nodup :=
  List.pairwise_map.mpr (h.imp TaskId.ne_of_lt)

/-- In an ascending list an element is what is found under its identifier. -/
theorem find?_eq_some_iff {xs : List α} (h : Ascending key xs) {id : TaskId} {x : α} :
    xs.find? (fun y => key y = id) = some x ↔ x ∈ xs ∧ key x = id :=
  find?_eq_some_iff_of_nodup h.nodup_map

/-- Ascending lists with the same elements are equal. -/
theorem ext {xs ys : List α} (hx : Ascending key xs) (hy : Ascending key ys)
    (h : ∀ x, x ∈ xs ↔ x ∈ ys) : xs = ys := by
  have nodup : ∀ {zs : List α}, Ascending key zs → zs.Nodup := fun hz =>
    hz.imp fun hlt he => TaskId.ne_of_lt hlt (congrArg key he)
  refine ((List.perm_ext_iff_of_nodup (nodup hx) (nodup hy)).mpr h).eq_of_pairwise ?_ hx hy
  intro a b _ _ hab hba
  exact absurd (TaskId.lt_trans hab hba) (TaskId.lt_irrefl _)

end Ascending

/-! ## The view of a roster -/

theorem id_of_find? {records : List Record} {id : TaskId} {r : Record}
    (h : records.find? (fun r => r.id = id) = some r) : r.id = id := by
  simpa using List.find?_some h

/-- What records say of an identifier: the first record that declares it, or an
entry without a record where it only lies above one that is declared. -/
def entryOf (records : List Record) (id : TaskId) : Option (Option Record) :=
  match records.find? fun r => r.id = id with
  | some r => some (some r)
  | none => if records.any fun r => id ∈ r.id.ancestors then some none else none

@[simp] theorem entryOf_nil (id : TaskId) : entryOf [] id = none := rfl

/-- Records say something of an identifier when one of them declares it or lies
under it, that is, when one begins with it. -/
theorem isSome_entryOf {records : List Record} {id : TaskId} :
    (entryOf records id).isSome ↔ ∃ r ∈ records, id.segments <+: r.id.segments := by
  have hsplit : ∀ r : Record, id.segments <+: r.id.segments ↔ r.id = id ∨ id ∈ r.id.ancestors := by
    intro r
    rw [← TaskId.eq_or_mem_ancestors_iff, eq_comm]
  unfold entryOf
  split
  · -- a record declares it, and begins with it
    rename_i r hr
    have hid := id_of_find? hr
    simp only [Option.isSome_some, true_iff]
    exact ⟨r, List.mem_of_find?_eq_some hr, (hsplit r).mpr (.inl hid)⟩
  · -- no record declares it, so what begins with it lies under it
    rename_i hnone
    simp only [List.find?_eq_none, decide_eq_true_eq] at hnone
    have hup : (∃ r ∈ records, id.segments <+: r.id.segments) ↔
        ∃ r ∈ records, id ∈ r.id.ancestors := by
      constructor
      · rintro ⟨r, hr, hp⟩
        exact ⟨r, hr, ((hsplit r).mp hp).resolve_left (hnone r hr)⟩
      · rintro ⟨r, hr, ha⟩
        exact ⟨r, hr, (hsplit r).mpr (.inr ha)⟩
    rw [hup]
    by_cases h : ∃ r ∈ records, id ∈ r.id.ancestors <;> simp [h]

theorem entryOf_eq_some_some_iff {records : List Record} {id : TaskId} {r : Record} :
    entryOf records id = some (some r) ↔ records.find? (fun r => r.id = id) = some r := by
  unfold entryOf
  split
  · rename_i h
    simp [h]
  · rename_i h
    rw [h]
    split <;> simp

/-- An identifier that has no record is declared by none. -/
theorem find?_eq_none_of_entryOf {records : List Record} {id : TaskId}
    (h : ∀ r, entryOf records id ≠ some (some r)) :
    records.find? (fun r => r.id = id) = none := by
  cases hf : records.find? (fun r => r.id = id) with
  | none => rfl
  | some r => exact absurd (entryOf_eq_some_some_iff.mpr hf) (h r)

namespace Roster

theorem contains_iff {s : Roster} {id : TaskId} : s.contains id = true ↔ (s.find? id).isSome := by
  rfl

theorem find?_put (s : Roster) (id x : TaskId) (record : Option Record) :
    (s.put id record).find? x = if id = x then some record else s.find? x := by
  unfold find? put
  rw [Ascending.find?_place]
  split <;> rfl

theorem find?_putImplicit (s : Roster) (ids : List TaskId) (x : TaskId) :
    (s.putImplicit ids).find? x = if x ∈ ids then some none else s.find? x := by
  unfold putImplicit
  induction ids generalizing s with
  | nil => simp
  | cons id ids ih =>
    rw [List.foldl_cons, ih, find?_put]
    by_cases hx : x ∈ ids
    · simp [hx]
    · by_cases he : id = x
      · simp [he]
      · simp [hx, he, Ne.symm he]

/-- The entries of a roster are what it has for identifiers. -/
theorem mem_entries_iff {s : Roster} {id : TaskId} {record : Option Record} :
    (id, record) ∈ s.entries ↔ s.find? id = some record := by
  unfold find?
  rw [Option.map_eq_some_iff]
  constructor
  · intro h
    exact ⟨_, (Ascending.find?_eq_some_iff s.ascending).mpr ⟨h, rfl⟩, rfl⟩
  · rintro ⟨⟨id', record'⟩, hf, rfl⟩
    obtain ⟨hmem, rfl⟩ := (Ascending.find?_eq_some_iff s.ascending).mp hf
    exact hmem

/-- Rosters that have the same for every identifier are equal. -/
theorem ext_find? {s t : Roster} (h : ∀ id, s.find? id = t.find? id) : s = t := by
  have hmem : ∀ e, e ∈ s.entries ↔ e ∈ t.entries := by
    rintro ⟨id, record⟩
    rw [mem_entries_iff, mem_entries_iff, h]
  obtain ⟨xs, hx⟩ := s
  obtain ⟨ys, hy⟩ := t
  have heq : xs = ys := hx.ext hy hmem
  subst heq
  rfl

/-! ## Entering records -/

/-- The report about a record whose identifier an earlier one has declared. -/
def repeatReport (earlier : List Record) (record : Record) : List Diagnostic :=
  match earlier.find? fun r => r.id = record.id with
  | some first =>
    [⟨.error, some record.location, .duplicateIdentifier record.id (some first.location)⟩]
  | none => []

/-- The reports about all records that are not the first of their identifier, in
the order of the records. -/
def repeatReports (records : List Record) : List Diagnostic :=
  records.zipIdx.flatMap fun (record, i) => repeatReport (records.take i) record

/-- A roster is of these records when it answers for each identifier as they do. -/
def IsOf (s : Roster) (records : List Record) : Prop :=
  ∀ id, s.find? id = entryOf records id

theorem isOf_empty : empty.IsOf [] := fun _ => rfl

/-- With an identifier, a roster of records has all those above it. -/
theorem IsOf.contains_ancestors {s : Roster} {records : List Record} (hs : s.IsOf records)
    {a b : TaskId} (hb : s.contains b = true) (ha : a ∈ b.ancestors) : s.contains a = true := by
  rw [contains_iff, hs, isSome_entryOf] at *
  obtain ⟨r, hr, hp⟩ := hb
  exact ⟨r, hr, (TaskId.mem_ancestors_iff.mp ha).1.trans hp⟩

/-- Nor do the records say nothing of an identifier above one with an entry. -/
theorem IsOf.entryOf_ancestor {s : Roster} {records : List Record} (hs : s.IsOf records)
    {a b : TaskId} (hb : (s.find? b).isSome) (ha : a ∈ b.ancestors) : entryOf records a ≠ none := by
  have hup : s.contains a = true := hs.contains_ancestors (contains_iff.mpr hb) ha
  rw [contains_iff, hs] at hup
  exact Option.isSome_iff_ne_none.mp hup

/-- What the records say once one more has been added to them. -/
theorem entryOf_concat (records : List Record) (record : Record) (id : TaskId) :
    entryOf (records ++ [record]) id =
      if record.id = id then some (some (((records.find? fun r => r.id = id)).getD record))
      else if id ∈ record.id.ancestors ∧ entryOf records id = none then some none
      else entryOf records id := by
  unfold entryOf
  rw [List.find?_append]
  cases hf : records.find? fun r => r.id = id with
  | some r => by_cases h : record.id = id <;> simp [h]
  | none =>
    by_cases h : record.id = id
    · simp [h]
    · by_cases ha : id ∈ record.id.ancestors <;>
        by_cases hany : ∃ r ∈ records, id ∈ r.id.ancestors <;> simp [h, ha, hany]

/-- **One record more.**  Whatever the roster has for the record's identifier, it
is afterwards the roster of the records with this one added, and the record is
reported exactly when an earlier one has its identifier. -/
theorem IsOf.declare {s : Roster} {records : List Record} (hs : s.IsOf records)
    (record : Record) :
    (s.declare record).value.IsOf (records ++ [record]) ∧
      (s.declare record).log = repeatReport records record := by
  have hid := hs record.id
  unfold Roster.declare
  split
  · -- the identifier is declared already: the roster stays as it is
    rename_i first hfirst
    rw [hfirst, eq_comm, entryOf_eq_some_some_iff] at hid
    refine ⟨fun id => ?_, by simp [repeatReport, hid]⟩
    show s.find? id = _
    rw [entryOf_concat, hs]
    by_cases h : record.id = id
    · subst h
      rw [if_pos rfl, hid, entryOf_eq_some_some_iff.mpr hid]
      rfl
    · rw [if_neg h, if_neg]
      rintro ⟨ha, hnone⟩
      exact hs.entryOf_ancestor (hfirst ▸ rfl) ha hnone
  · -- the identifier has an entry without a record, which is filled
    rename_i hempty
    have hnone : records.find? (fun r => r.id = record.id) = none :=
      find?_eq_none_of_entryOf fun r hr => by
        rw [← hs, hempty] at hr
        cases hr
    refine ⟨fun id => ?_, by simp [repeatReport, hnone]⟩
    show (s.put record.id (some record)).find? id = _
    rw [entryOf_concat, find?_put, hs]
    by_cases h : record.id = id
    · subst h
      simp [hnone]
    · rw [if_neg h, if_neg h, if_neg]
      rintro ⟨ha, hn⟩
      exact hs.entryOf_ancestor (hempty ▸ rfl) ha hn
  · -- the identifier is new: the ancestors that are missing come with it
    rename_i hnew
    have hnone : records.find? (fun r => r.id = record.id) = none :=
      find?_eq_none_of_entryOf fun r hr => by
        rw [← hs, hnew] at hr
        cases hr
    refine ⟨fun id => ?_, by simp [repeatReport, hnone]⟩
    show ((s.putImplicit _).put record.id (some record)).find? id = _
    have hmissing : (id ∈ record.id.ancestors.takeWhile fun a => !s.contains a) ↔
        id ∈ record.id.ancestors ∧ entryOf records id = none := by
      rw [TaskId.mem_takeWhile_ancestors fun b hb a ha => hs.contains_ancestors hb ha,
        ← hs, contains]
      simp
    rw [entryOf_concat, find?_put, find?_putImplicit, hs]
    by_cases h : record.id = id
    · subst h
      simp [hnone]
    · simp only [if_neg h, hmissing]

theorem IsOf.declareAll {s : Roster} {earlier : List Record} (hs : s.IsOf earlier)
    (records : List Record) :
    (s.declareAll records).value.IsOf (earlier ++ records) ∧
      (s.declareAll records).log = (records.zipIdx earlier.length).flatMap fun (record, i) =>
        repeatReport ((earlier ++ records).take i) record := by
  -- what has been entered grows with each record, so it is any list of earlier ones
  induction records generalizing s earlier with
  | nil => exact ⟨by simpa [Roster.declareAll] using hs, rfl⟩
  | cons record rest ih =>
    obtain ⟨hstep, hlog⟩ := hs.declare record
    obtain ⟨hrun, hlogs⟩ := ih hstep
    rw [List.append_assoc, List.singleton_append] at hrun hlogs
    refine ⟨hrun, ?_⟩
    simp only [Roster.declareAll, Logged.log_bind, hlog, hlogs, List.zipIdx_cons,
      List.flatMap_cons, List.take_left, List.length_append, List.length_singleton]

/-- **The roster of records answers for each identifier as the records do**,
whatever the order in which they came. -/
theorem find?_ofRecords (records : List Record) (id : TaskId) :
    (ofRecords records).value.find? id = entryOf records id :=
  (isOf_empty.declareAll records).1 id

/-- **Each record that is not the first of its identifier is reported once**, in
the order of the records, and nothing else is. -/
theorem log_ofRecords (records : List Record) :
    (ofRecords records).log = repeatReports records :=
  (isOf_empty.declareAll records).2

/-! ## The records that stand -/

/-- The records that a roster keeps, in the order of their identifiers. -/
def kept (s : Roster) : List Record := s.entries.filterMap Prod.snd

theorem mem_kept_iff {records : List Record} {r : Record} :
    r ∈ (ofRecords records).value.kept ↔ records.find? (fun x => x.id = r.id) = some r := by
  unfold kept
  rw [List.mem_filterMap]
  constructor
  · rintro ⟨⟨id, record⟩, he, hr⟩
    obtain rfl : record = some r := hr
    rw [mem_entries_iff, find?_ofRecords, entryOf_eq_some_some_iff] at he
    have hid := id_of_find? he
    rwa [hid]
  · intro h
    refine ⟨(r.id, some r), ?_, rfl⟩
    rw [mem_entries_iff, find?_ofRecords, entryOf_eq_some_some_iff]
    exact h

theorem mem_of_mem_kept {records : List Record} {r : Record}
    (h : r ∈ (ofRecords records).value.kept) : r ∈ records :=
  List.mem_of_find?_eq_some (mem_kept_iff.mp h)

theorem kept_ne_nil {records : List Record} (h : records ≠ []) :
    (ofRecords records).value.kept ≠ [] := by
  obtain ⟨r, rest, rfl⟩ := List.exists_cons_of_ne_nil h
  exact List.ne_nil_of_mem (a := r) (mem_kept_iff.mpr (by simp))

/-- The kept records come in the order of their identifiers. -/
theorem ascending_kept (records : List Record) :
    Ascending Record.id (ofRecords records).value.kept := by
  have hkey : ∀ e ∈ (ofRecords records).value.entries, ∀ r, e.2 = some r → r.id = e.1 := by
    rintro ⟨id, record⟩ he r rfl
    rw [mem_entries_iff, find?_ofRecords, entryOf_eq_some_some_iff] at he
    exact id_of_find? he
  refine List.pairwise_filterMap.mpr ?_
  refine (ofRecords records).value.ascending.imp_of_mem ?_
  intro e e' he he' hlt r hr r' hr'
  rw [hkey e he r hr, hkey e' he' r' hr']
  exact hlt

/-- Where no identifier is declared twice, all records are kept. -/
theorem kept_perm {records : List Record} (h : (records.map Record.id).Nodup) :
    (ofRecords records).value.kept.Perm records := by
  have hnodup : ∀ {rs : List Record}, (rs.map Record.id).Nodup → rs.Nodup := fun hrs =>
    (List.pairwise_map.mp hrs).imp fun hne heq => hne (congrArg Record.id heq)
  have hkept := hnodup (ascending_kept records).nodup_map
  refine (List.perm_ext_iff_of_nodup hkept (hnodup h)).mpr fun r => ?_
  rw [mem_kept_iff, find?_eq_some_iff_of_nodup h]
  exact and_iff_left rfl

theorem find?_kept (records : List Record) (id : TaskId) :
    (ofRecords records).value.kept.find? (fun r => r.id = id) =
      records.find? (fun r => r.id = id) := by
  refine Option.ext fun r => ?_
  rw [Ascending.find?_eq_some_iff (ascending_kept records), mem_kept_iff]
  constructor
  · rintro ⟨h, rfl⟩
    exact h
  · intro h
    have hid := id_of_find? h
    exact ⟨by rwa [hid], hid⟩

/-- The kept records say of each identifier what all the records say. -/
theorem entryOf_kept (records : List Record) (id : TaskId) :
    entryOf (ofRecords records).value.kept id = entryOf records id := by
  have hany : ((ofRecords records).value.kept.any fun r => id ∈ r.id.ancestors) =
      records.any fun r => id ∈ r.id.ancestors := by
    rw [Bool.eq_iff_iff]
    simp only [List.any_eq_true, decide_eq_true_eq]
    constructor
    · rintro ⟨r, hr, ha⟩
      exact ⟨r, mem_of_mem_kept hr, ha⟩
    · rintro ⟨r, hr, ha⟩
      -- the first record of this identifier stands for it
      obtain ⟨first, hfirst⟩ : ∃ first, records.find? (fun x => x.id = r.id) = some first :=
        Option.isSome_iff_exists.mp (List.find?_isSome.mpr ⟨r, hr, by simp⟩)
      have hid := id_of_find? hfirst
      exact ⟨first, mem_kept_iff.mpr (by rwa [hid]), by rwa [hid]⟩
  unfold entryOf
  rw [find?_kept, hany]

/-- Where no identifier is repeated nothing is reported. -/
theorem repeatReports_of_nodup {records : List Record} (h : (records.map Record.id).Nodup) :
    repeatReports records = [] := by
  refine List.flatMap_eq_nil_iff.mpr ?_
  rintro ⟨record, i⟩ hi
  have hget : records[i]? = some record := List.mk_mem_zipIdx_iff_getElem?.mp hi
  have hnone : (records.take i).find? (fun r => r.id = record.id) = none := by
    simp only [List.find?_eq_none, decide_eq_true_eq]
    intro r hr
    obtain ⟨j, hj, rfl⟩ := List.mem_take_iff_getElem.mp hr
    obtain ⟨hlt, rfl⟩ := List.getElem?_eq_some_iff.mp hget
    exact List.pairwise_iff_getElem.mp (List.pairwise_map.mp h) j i _ _ (by omega)
  simp [repeatReport, hnone]

end Roster

end TaskOutline
