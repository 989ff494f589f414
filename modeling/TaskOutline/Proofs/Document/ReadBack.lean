import TaskOutline.Proofs.Document.Pairs
import TaskOutline.Proofs.Outline.Entries

/-! # Reading undoes writing

The canonical document of an outline is the blocks of its records, one after the other.
Each block has two fences and no other, since neither a property line nor a line of the
notes is one, so the pairs of fences of the document are those of its records in turn
(`fenceAt_joinText`).  What is read of it are therefore the records, each on the line of
the fence that opens its block, and nothing is reported (`readDocument_joinText_located`).
-/
namespace TaskOutline

open Text Layout

/-- How many lines the blocks of the first so many records have. -/
def linesBefore (records : List Record) (k : Nat) : Nat :=
  ((records.take k).flatMap Record.blockLines).length

theorem linesBefore_cons_succ (r : Record) (rest : List Record) (k : Nat) :
    linesBefore (r :: rest) (k + 1) = r.blockLines.length + linesBefore rest k := by
  rw [linesBefore, List.take_succ_cons, List.flatMap_cons, List.length_append, linesBefore]

theorem getElem?_sectionsFrom (n : Nat) (records : List Record) (k : Nat) :
    (sectionsFrom n records)[k]? =
      records[k]?.map fun r => r.toSection (n + linesBefore records k) := by
  induction records generalizing n k with
  | nil => rfl
  | cons r rest ih =>
    cases k with
    | zero => rfl
    | succ k =>
      rw [sectionsFrom, List.getElem?_cons_succ, List.getElem?_cons_succ, ih,
        linesBefore_cons_succ, Nat.add_assoc]

theorem getElem?_placedFrom (origin : String) (n : Nat) (records : List Record) (k : Nat) :
    (placedFrom origin n records)[k]? =
      records[k]?.map fun r => r.placed origin (n + linesBefore records k) := by
  induction records generalizing n k with
  | nil => rfl
  | cons r rest ih =>
    cases k with
    | zero => rfl
    | succ k =>
      rw [placedFrom, List.getElem?_cons_succ, List.getElem?_cons_succ, ih,
        linesBefore_cons_succ, Nat.add_assoc]

theorem length_sectionsFrom (n : Nat) (records : List Record) :
    (sectionsFrom n records).length = records.length := by
  induction records generalizing n with
  | nil => rfl
  | cons r rest ih => rw [sectionsFrom, List.length_cons, List.length_cons, ih]

section Written

variable {records : List Record} (h : ∀ r ∈ records, r.Writable)

include h

/-- The sections of a text of records are their blocks. -/
theorem ofText_joinText : ofText (String.join (records.map Record.text)) =
    ⟨[], sectionsFrom 1 records, none⟩ := by
  rw [ofText, lines_joinText h, outside_blockLines 1 h]

/-- A text of records has two fences for each of them. -/
theorem length_fences_joinText :
    (fences (lines (String.join (records.map Record.text)).toList)).length =
      2 * records.length := by
  have hlayout := ofText_eq (String.join (records.map Record.text)) rfl
  rw [ofText_joinText h] at hlayout
  obtain ⟨-, hsections, hunpaired⟩ := (Layout.mk.injEq ..).mp hlayout
  have hhalf := congrArg List.length hsections
  rw [length_sectionsFrom, List.length_map, List.length_range] at hhalf
  rw [unpaired?] at hunpaired
  split at hunpaired
  · cases hunpaired
  · omega

/-- **The fence that opens the block of a record** stands after the blocks of the records
before it. -/
theorem fenceAt_joinText {k : Nat} (hk : k < records.length) :
    fenceAt (lines (String.join (records.map Record.text)).toList) (2 * k) =
      linesBefore records k := by
  have hlayout := ofText_eq (String.join (records.map Record.text)) rfl
  rw [ofText_joinText h] at hlayout
  obtain ⟨-, hsections, -⟩ := (Layout.mk.injEq ..).mp hlayout
  have hpair := congrArg (·[k]?) hsections
  have hrange : k < (fences (lines (String.join (records.map Record.text)).toList)).length / 2 := by
    rw [length_fences_joinText h]
    omega
  simp only [getElem?_sectionsFrom, List.getElem?_eq_getElem hk, Option.map_some,
    List.getElem?_map, List.getElem?_range hrange, Option.some.injEq] at hpair
  have hline : 1 + linesBefore records k = _ := congrArg Section.line hpair
  rw [pairSection, Nat.add_comm] at hline
  exact (Nat.succ.inj hline).symm

theorem linesBefore_eq_length_lines (k : Nat) :
    linesBefore records k =
      (lines (String.join ((records.take k).map Record.text)).toList).length := by
  rw [lines_joinText fun r hr => h r (List.mem_of_mem_take hr), linesBefore]

/-- **A text of records is read as the records**, each on the fence that opens its
block. -/
theorem readDocument_joinText_located (origin : String)
    (hclosed : ∀ r ∈ records, Closed r.notes.toList) :
    readDocument origin (String.join (records.map Record.text)) =
      ⟨records.zipIdx.map fun (r, k) => .task { r with location :=
        ⟨origin, fenceAt (lines (String.join (records.map Record.text)).toList) (2 * k) + 1⟩ },
        []⟩ := by
  rw [readDocument_joinText origin h]
  ext1
  · refine List.ext_getElem? fun k => ?_
    rw [List.getElem?_map, getElem?_placedFrom, List.getElem?_map, List.getElem?_zipIdx]
    by_cases hk : k < records.length
    · have hnotes : (records[k]).closedNotes = (records[k]).notes :=
        Record.closedNotes_of_closed (hclosed _ (List.getElem_mem hk))
      rw [List.getElem?_eq_getElem hk, Option.map_some, Option.map_some, Option.map_some,
        Option.map_some, Nat.zero_add, Record.placed, hnotes, Nat.add_comm,
        ← fenceAt_joinText h hk]
    · rw [List.getElem?_eq_none (Nat.le_of_not_lt hk)]
      rfl
  · rfl

end Written

/-- A record whose label stands on one line, trimmed and not empty, and whose notes have
no line that reads `---`, can be written and read back. -/
theorem Record.writable_of_conditions {r : Record}
    (hlabel : ∀ s, r.label = some s → s ≠ "" ∧ trim s.toList = s.toList ∧ '\n' ∉ s.toList)
    (hnotes : ∀ line ∈ lines r.notes.toList, trim line ≠ ['-', '-', '-']) : r.Writable where
  label s hs := by
    obtain ⟨hne, htrim, hline⟩ := hlabel s hs
    exact ⟨by simpa using hne, htrim ▸ trimmed_trim s.toList, hline⟩
  notes line hline := isFence_eq_false_iff.mpr (hnotes line hline)

/-- **Reading undoes writing.**  Let records have labels that are trimmed, not empty and
on one line, notes in which no line reads `---` and which are empty or end in a newline,
and identifiers that are all different; dates are in the years 0 to 9999 as they are.
The outline that is built of them writes them in the order of their identifiers.  Its
canonical document is read as exactly these records, and nothing is reported.  The
document has two fences for each record; the record stands on the first of them, which
comes right after the blocks of the records before it. -/
theorem readDocument_plainText_build (origin : String) {records : List Record}
    (hlabel : ∀ r ∈ records, ∀ s, r.label = some s →
      s ≠ "" ∧ trim s.toList = s.toList ∧ '\n' ∉ s.toList)
    (hnotes : ∀ r ∈ records, (∀ line ∈ lines r.notes.toList, trim line ≠ ['-', '-', '-']) ∧
      (r.notes = "" ∨ r.notes.toList.getLast? = some '\n'))
    (hids : (records.map Record.id).Nodup) :
    let text := (Outline.build records).value.plainText
    let written := (Outline.build records).value.records
    written.Perm records ∧ written.Pairwise (fun a b => a.id < b.id) ∧
    readDocument origin text =
      ⟨written.zipIdx.map fun (r, k) => .task { r with location :=
        ⟨origin, fenceAt (lines text.toList) (2 * k) + 1⟩ }, []⟩ ∧
    (fences (lines text.toList)).length = 2 * written.length ∧
    ∀ k < written.length, fenceAt (lines text.toList) (2 * k) =
      (lines (String.join ((written.take k).map Record.text)).toList).length := by
  intro text written
  have hperm : written.Perm records := by
    show (Outline.build records).value.records.Perm records
    rw [Outline.records_build]
    exact Roster.kept_perm hids
  have hwritable : ∀ r ∈ written, r.Writable := fun r hr =>
    have hr : r ∈ records := hperm.subset hr
    Record.writable_of_conditions (hlabel r hr) (hnotes r hr).1
  have hclosed : ∀ r ∈ written, Closed r.notes.toList := fun r hr =>
    (hnotes r (hperm.subset hr)).2.imp_left fun hnil => by simp [hnil]
  refine ⟨hperm, ?_, readDocument_joinText_located hwritable origin hclosed,
    length_fences_joinText hwritable, fun k hk => ?_⟩
  · show (Outline.build records).value.records.Pairwise _
    rw [Outline.records_build]
    exact Roster.ascending_kept records
  · exact (fenceAt_joinText hwritable hk).trans (linesBefore_eq_length_lines hwritable k)

/-- A task of its own, with a label that might be taken for a value. -/
def plainTask : Record :=
  { Record.bare .first ⟨"b.md", 7⟩ with label := some "none" }

/-- A task two levels down, whose label and notes look like parts of a block. -/
def nestedTask : Record :=
  { Record.bare ⟨[2, 1], by decide, by decide⟩ ⟨"a.md", 1⟩ with
    label := some "---"
    deadline := .cleared
    depends := IdSet.ofList [.first]
    notes := "task 9\n\n" }

/-- The two tasks come back in order, the second from the fifth line on. -/
theorem readDocument_plainText_build_tasks :
    ([nestedTask, plainTask].map Record.id).Nodup ∧
      readDocument "out.md" (Outline.build [nestedTask, plainTask]).value.plainText =
        ⟨[.task { plainTask with location := ⟨"out.md", 1⟩ },
          .task { nestedTask with location := ⟨"out.md", 5⟩ }], []⟩ := by
  have hlabel : ∀ r ∈ [nestedTask, plainTask], ∀ s, r.label = some s →
      s ≠ "" ∧ trim s.toList = s.toList ∧ '\n' ∉ s.toList := by
    intro r hr s hs
    rcases List.mem_cons.mp hr with rfl | hr
    · cases hs
      decide
    · rw [List.mem_singleton.mp hr] at hs
      cases hs
      decide
  have hnotes : ∀ r ∈ [nestedTask, plainTask],
      (∀ line ∈ lines r.notes.toList, trim line ≠ ['-', '-', '-']) ∧
        (r.notes = "" ∨ r.notes.toList.getLast? = some '\n') := by
    intro r hr
    rcases List.mem_cons.mp hr with rfl | hr
    · exact ⟨by decide, .inr rfl⟩
    · rw [List.mem_singleton.mp hr]
      exact ⟨by decide, .inl rfl⟩
  have hids : ([nestedTask, plainTask].map Record.id).Nodup := by decide
  obtain ⟨hperm, hsorted, hread, -⟩ := readDocument_plainText_build "out.md" hlabel hnotes hids
  have hrecords : (Outline.build [nestedTask, plainTask]).value.records =
      [plainTask, nestedTask] := by
    have hascending : Ascending Record.id [plainTask, nestedTask] :=
      List.pairwise_pair.mpr (by decide)
    have hsame := hperm.trans (List.Perm.swap plainTask nestedTask [])
    exact Ascending.ext hsorted hascending fun r => hsame.mem_iff
  have hwritable : ∀ r ∈ [plainTask, nestedTask], r.Writable := fun r hr =>
    have hr : r ∈ [nestedTask, plainTask] := (List.Perm.swap nestedTask plainTask []).subset hr
    Record.writable_of_conditions (hlabel r hr) (hnotes r hr).1
  have hfirst := fenceAt_joinText hwritable (k := 0) (by decide)
  have hsecond := fenceAt_joinText hwritable (k := 1) (by decide)
  rw [show linesBefore [plainTask, nestedTask] 0 = 0 from rfl] at hfirst
  rw [show linesBefore [plainTask, nestedTask] 1 = 4 from rfl] at hsecond
  refine ⟨hids, hread.trans ?_⟩
  rw [Outline.plainText, hrecords]
  show (⟨[.task { plainTask with location := ⟨"out.md", fenceAt _ (2 * 0) + 1⟩ },
    .task { nestedTask with location := ⟨"out.md", fenceAt _ (2 * 1) + 1⟩ }], []⟩ :
      Logged (List Block)) = _
  rw [hfirst, hsecond]

end TaskOutline
