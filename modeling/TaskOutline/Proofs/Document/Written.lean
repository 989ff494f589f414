import TaskOutline.Proofs.Document.Fields
import TaskOutline.Proofs.Document.Layout
import TaskOutline.Report.Plain

/-! # What is written is read back

A record is written as a block, and records are written one after the other.  Read
again, the text gives these records in order, with their notes closed by a newline
and located where they now stand, and nothing is reported.

What a record must be like for that is `Record.Writable`: a label that fits on its
line, and notes that do not begin a block of their own.
-/
namespace TaskOutline

open Text

/-! ## Closing notes -/

namespace Text

/-- Lines end with a newline, or the last one lacks it. -/
theorem Lined.closed_or_open {ls : List (List Char)} (h : Lined ls) :
    Closed ls.flatten ∨ ∃ before l, ls = before ++ [l] ∧ l ≠ [] ∧ '\n' ∉ l ∧
      Closed before.flatten := by
  induction h with
  | nil => exact .inl (.inl rfl)
  | @last l hne hl => exact .inr ⟨[], l, rfl, hne, hl, .inl rfl⟩
  | @cons l ls hl _ ih =>
    rcases ih with hclosed | ⟨before, l', rfl, hne, hl', hclosed⟩
    · exact .inl (closed_append (closed_concat l) hclosed)
    · exact .inr ⟨(l ++ ['\n']) :: before, l', rfl, hne, hl',
        closed_append (closed_concat l) hclosed⟩

/-- A newline at the end of a text that lacks one ends its last line. -/
theorem mem_lines_concat_newline {cs : List Char} (h : ¬ Closed cs) {l : List Char}
    (hl : l ∈ lines (cs ++ ['\n'])) : l ∈ lines cs ∨ ∃ l' ∈ lines cs, l = l' ++ ['\n'] := by
  have hflat := flatten_lines cs
  rcases (lined_lines cs).closed_or_open with hclosed | ⟨before, last, heq, hne, hlast, hclosed⟩
  · exact absurd (hflat ▸ hclosed) h
  · -- only the last line changes
    have hbefore : Lined before := (heq ▸ lined_lines cs).of_append_left
    rw [← hflat, heq, List.flatten_append, List.append_assoc, lines_append hclosed,
      hbefore.lines_flatten, List.flatten_singleton, lines_line_append hlast] at hl
    rw [heq]
    rcases List.mem_append.mp hl with hl | hl
    · exact .inl (List.mem_append_left _ hl)
    · obtain rfl : l = last ++ ['\n'] := by simpa using hl
      exact .inr ⟨last, by simp, rfl⟩

end Text

namespace Record

theorem closedNotes_of_closed {r : Record} (h : Closed r.notes.toList) :
    r.closedNotes = r.notes := by
  unfold closedNotes
  rw [if_pos]
  rcases h with h | h
  · exact .inl (by simpa using h)
  · exact .inr h

theorem closedNotes_of_open {r : Record} (h : ¬ Closed r.notes.toList) :
    r.closedNotes = endLine r.notes := by
  unfold closedNotes
  rw [if_neg]
  rintro (hnil | hlast)
  · exact h (.inl (by simpa using hnil))
  · exact h (.inr hlast)

theorem closed_closedNotes (r : Record) : Closed r.closedNotes.toList := by
  by_cases h : Closed r.notes.toList
  · rwa [closedNotes_of_closed h]
  · rw [closedNotes_of_open h, endLine, String.toList_append]
    exact closed_concat _

/-- A record that can be written and read back. -/
structure Writable (r : Record) : Prop where
  /-- The label fits on its line. -/
  label : ∀ s, r.label = some s → IsLineValue s
  /-- The notes begin no block. -/
  notes : ∀ l ∈ lines r.notes.toList, isFence l = false

/-- Closed notes begin no block either. -/
theorem Writable.closedNotes {r : Record} (h : r.Writable) :
    ∀ l ∈ lines r.closedNotes.toList, isFence l = false := by
  by_cases hclosed : Closed r.notes.toList
  · rw [closedNotes_of_closed hclosed]
    exact h.notes
  · rw [closedNotes_of_open hclosed, endLine, String.toList_append]
    intro l hl
    rcases mem_lines_concat_newline hclosed hl with hl | ⟨l', hl', rfl⟩
    · exact h.notes l hl
    · rw [isFence_newline]
      exact h.notes l' hl'

/-! ## The fields of a record -/

/-- The field of a declaration, where something is declared. -/
def declaredField {α : Type} (mk : Declared α → Field) : Declared α → List Field
  | .unset => []
  | d => [mk d]

/-- The fields that a record is written as. -/
def fields (r : Record) : List Field :=
  [.task r.id] ++ (r.label.map .label).toList ++ (r.status.map .status).toList ++
    declaredField .priority r.priority ++ declaredField .deadline r.deadline ++
    if r.depends.isEmpty then [] else [.depends r.depends.toList]

theorem propertyLine_declared {α : Type} {key : String} {write : α → String}
    {mk : Declared α → Field}
    (hmk : ∀ d, (mk d).line = key ++ " " ++ (d.text? write).getD "") (d : Declared α) :
    propertyLine key (d.text? write) = (declaredField mk d).map Field.line := by
  cases d <;> simp [propertyLine, declaredField, Declared.text?, hmk]

/-- The lines of a record are those of its fields. -/
theorem frontLines_eq (r : Record) : r.frontLines = r.fields.map Field.line := by
  have hlabel : propertyLine "label" r.label =
      (r.label.map Field.label).toList.map Field.line := by
    cases r.label <;> rfl
  have hstatus : propertyLine "status" (r.status.map Status.text) =
      (r.status.map Field.status).toList.map Field.line := by
    cases r.status <;> rfl
  have hpriority : propertyLine "priority" (r.priority.text? Priority.text) =
      (declaredField .priority r.priority).map Field.line :=
    propertyLine_declared (fun _ => rfl) _
  have hdeadline : propertyLine "deadline" (r.deadline.text? Date.text) =
      (declaredField .deadline r.deadline).map Field.line :=
    propertyLine_declared (fun _ => rfl) _
  have hdepends : r.dependsLine =
      (if r.depends.isEmpty then [] else [Field.depends r.depends.toList]).map Field.line := by
    unfold dependsLine
    split <;> rfl
  unfold frontLines fields
  simp only [List.map_append]
  rw [hlabel, hstatus, hpriority, hdeadline, hdepends]
  rfl

theorem writable_declaredField {α : Type} (mk : Declared α → Field)
    (hmk : ∀ d, d ≠ .unset → (mk d).Writable) (d : Declared α) :
    ∀ f ∈ declaredField mk d, f.Writable := by
  intro f hf
  cases d with
  | unset => cases hf
  | cleared =>
    rw [List.mem_singleton.mp hf]
    exact hmk _ (by simp)
  | value a =>
    rw [List.mem_singleton.mp hf]
    exact hmk _ (by simp)

theorem Writable.fields {r : Record} (h : r.Writable) : ∀ f ∈ r.fields, f.Writable := by
  intro f hf
  simp only [Record.fields, List.mem_append, Option.mem_toList,
    Option.map_eq_some_iff] at hf
  rcases hf with ((((hf | ⟨s, hs, rfl⟩) | ⟨s, -, rfl⟩) | hf) | hf) | hf
  · rw [List.mem_singleton.mp hf]
    trivial
  · exact h.label s hs
  · trivial
  · exact writable_declaredField .priority (fun _ hd => hd) _ f hf
  · exact writable_declaredField .deadline (fun _ hd => hd) _ f hf
  · by_cases hempty : r.depends.isEmpty
    · simp [hempty] at hf
    · rw [if_neg hempty, List.mem_singleton] at hf
      subst hf
      show r.depends.toList ≠ []
      simpa [IdSet.isEmpty] using hempty

theorem keys_declaredField {α : Type} (mk : Declared α → Field) {key : Key}
    (hmk : ∀ d, (mk d).key = key) (d : Declared α) :
    ((declaredField mk d).map Field.key).Sublist [key] := by
  cases d <;> simp [declaredField, hmk]

/-- A record writes each key once at most, and in a fixed order. -/
theorem keys_fields (r : Record) :
    (r.fields.map Field.key).Sublist
      [.task, .label, .status, .priority, .deadline, .depends] := by
  have hlabel : ((r.label.map Field.label).toList.map Field.key).Sublist [.label] := by
    cases r.label <;> simp [Field.key]
  have hstatus : ((r.status.map Field.status).toList.map Field.key).Sublist [.status] := by
    cases r.status <;> simp [Field.key]
  have hdepends : ((if r.depends.isEmpty then [] else [Field.depends r.depends.toList]).map
      Field.key).Sublist [.depends] := by
    split <;> simp [Field.key]
  unfold fields
  simp only [List.map_append]
  exact (((((List.Sublist.refl [Key.task]).append hlabel).append hstatus).append
    (keys_declaredField .priority (fun _ => rfl) _)).append
    (keys_declaredField .deadline (fun _ => rfl) _)).append hdepends

/-- What is looked for among the fields of a record is looked for in turn. -/
theorem findSome?_fields {β : Type} (g : Field → Option β) (r : Record) :
    r.fields.findSome? g =
      (g (.task r.id)).or ((r.label.bind fun s => g (.label s)).or
        ((r.status.bind fun s => g (.status s)).or
          (((declaredField .priority r.priority).findSome? g).or
            (((declaredField .deadline r.deadline).findSome? g).or
              ((if r.depends.isEmpty then [] else [.depends r.depends.toList]).findSome? g))))) := by
  have hsingle : ∀ {α : Type} (mk : α → Field) (o : Option α),
      (o.map mk).toList.findSome? g = o.bind fun a => g (mk a) := by
    intro α mk o
    cases o <;> simp
  unfold fields
  simp only [List.findSome?_append, hsingle, List.findSome?_singleton, Option.or_assoc]

theorem findSome?_declaredField {α β : Type} (mk : Declared α → Field) {g : Field → Option β}
    (h : ∀ d, g (mk d) = none) (d : Declared α) : (declaredField mk d).findSome? g = none := by
  cases d <;> simp [declaredField, h]

theorem getD_declaredField {α : Type} (mk : Declared α → Field)
    {g : Field → Option (Declared α)} (h : ∀ d, g (mk d) = some d) (d : Declared α) :
    ((declaredField mk d).findSome? g).getD .unset = d := by
  cases d <;> simp [declaredField, h]

theorem flatMap_ids_fields (r : Record) : r.fields.flatMap Field.ids = r.depends.toList := by
  have hlabel : (r.label.map Field.label).toList.flatMap Field.ids = [] := by
    cases r.label <;> rfl
  have hstatus : (r.status.map Field.status).toList.flatMap Field.ids = [] := by
    cases r.status <;> rfl
  have hpriority : (declaredField .priority r.priority).flatMap Field.ids = [] := by
    cases r.priority <;> rfl
  have hdeadline : (declaredField .deadline r.deadline).flatMap Field.ids = [] := by
    cases r.deadline <;> rfl
  unfold fields
  simp only [List.flatMap_append, hlabel, hstatus, hpriority, hdeadline]
  by_cases hempty : r.depends.isEmpty
  · have hnil : r.depends.toList = [] := by simpa [IdSet.isEmpty] using hempty
    rw [if_pos hempty, hnil]
    rfl
  · rw [if_neg hempty]
    simp [Field.ids]

/-- **The fields of a record make it up again.** -/
theorem ofFields?_fields (r : Record) (notes : String) (location : Location) :
    ofFields? r.fields notes location = some { r with notes := notes, location := location } := by
  have hdependsNone : ∀ {β : Type} (g : Field → Option β), (∀ ids, g (.depends ids) = none) →
      (if r.depends.isEmpty then [] else [Field.depends r.depends.toList]).findSome? g = none := by
    intro β g hg
    split <;> simp [hg]
  have hid : r.fields.findSome? Field.id? = some r.id := rfl
  have hlabel : r.fields.findSome? Field.label? = r.label := by
    rw [findSome?_fields, findSome?_declaredField .priority (fun _ => rfl),
      findSome?_declaredField .deadline (fun _ => rfl), hdependsNone _ (fun _ => rfl)]
    simp [Field.label?]
  have hstatus : r.fields.findSome? Field.status? = r.status := by
    rw [findSome?_fields, findSome?_declaredField .priority (fun _ => rfl),
      findSome?_declaredField .deadline (fun _ => rfl), hdependsNone _ (fun _ => rfl)]
    simp [Field.status?]
  have hpriority : (r.fields.findSome? Field.priority?).getD .unset = r.priority := by
    rw [findSome?_fields, findSome?_declaredField .deadline (fun _ => rfl),
      hdependsNone _ (fun _ => rfl)]
    simpa [Field.priority?] using getD_declaredField .priority (fun _ => rfl) r.priority
  have hdeadline : (r.fields.findSome? Field.deadline?).getD .unset = r.deadline := by
    rw [findSome?_fields, findSome?_declaredField .priority (fun _ => rfl),
      hdependsNone _ (fun _ => rfl)]
    simpa [Field.deadline?] using getD_declaredField .deadline (fun _ => rfl) r.deadline
  have hdepends : IdSet.ofList (r.fields.flatMap Field.ids) = r.depends := by
    refine IdSet.ext fun id => ?_
    rw [IdSet.mem_ofList, flatMap_ids_fields, IdSet.mem_def]
  unfold ofFields?
  rw [hid, hlabel, hstatus, hpriority, hdeadline, hdepends]
  rfl

/-! ## The block of a record -/

/-- The lines of the block that declares a record. -/
def blockLines (r : Record) : List (List Char) :=
  fenceLine :: linesOf r.fields ++ fenceLine :: lines r.closedNotes.toList

/-- The record as it is read from its block, which begins at line `n`. -/
def placed (origin : String) (n : Nat) (r : Record) : Record :=
  { r with notes := r.closedNotes, location := ⟨origin, n⟩ }

/-- The section that the block of a record is. -/
def toSection (n : Nat) (r : Record) : Section :=
  ⟨n, linesOf r.fields, lines r.closedNotes.toList⟩

theorem toList_unlines (ls : List String) :
    (unlines ls).toList = (ls.map fun s => s.toList ++ ['\n']).flatten := by
  unfold unlines
  rw [String.toList_join, List.flatMap_map, List.flatMap_def]
  congr 2
  funext s
  rw [endLine, String.toList_append]
  rfl

theorem lined_linesOf {fields : List Field} (h : ∀ f ∈ fields, f.Writable)
    {rest : List (List Char)} (hrest : Lined rest) : Lined (linesOf fields ++ rest) := by
  induction fields with
  | nil => exact hrest
  | cons f fields ih =>
    obtain ⟨hf, hfields⟩ := List.forall_mem_cons.mp h
    exact .cons (Field.newline_not_mem_line hf) (ih hfields)

theorem lined_fenceLine {rest : List (List Char)} (hrest : Lined rest) :
    Lined (fenceLine :: rest) :=
  Lined.cons (show '\n' ∉ ['-', '-', '-'] by decide) hrest

theorem flatten_blockLines (r : Record) : r.blockLines.flatten = r.text.toList := by
  have hfront : (("---" :: r.frontLines ++ ["---"]).map fun s : String => s.toList ++ ['\n']) =
      fenceLine :: linesOf r.fields ++ [fenceLine] := by
    rw [frontLines_eq, List.map_append, List.map_cons, List.map_map]
    rfl
  unfold text blockLines
  rw [String.toList_append, toList_unlines, hfront, ← flatten_lines r.closedNotes.toList]
  simp [flatten_lines]

/-- The text of a record is the lines of its block. -/
theorem Writable.lines_text {r : Record} (h : r.Writable) : lines r.text.toList = r.blockLines := by
  have hlined : Lined r.blockLines :=
    lined_fenceLine (lined_linesOf h.fields (lined_fenceLine (lined_lines _)))
  rw [← flatten_blockLines, hlined.lines_flatten]

theorem closed_text (r : Record) : Closed r.text.toList := by
  rw [← flatten_blockLines]
  have hsplit : r.blockLines.flatten =
      (fenceLine :: linesOf r.fields).flatten ++ (['-', '-', '-'] ++ ['\n']) ++
        r.closedNotes.toList := by
    unfold blockLines
    rw [List.flatten_append, List.flatten_cons, List.flatten_cons, flatten_lines]
    simp [fenceLine]
  rw [hsplit, ← List.append_assoc]
  exact closed_append (closed_concat _) r.closed_closedNotes

/-! ## Reading a block back -/

theorem isFence_linesOf {fields : List Field} (h : ∀ f ∈ fields, f.Writable) :
    ∀ l ∈ linesOf fields, isFence l = false := by
  intro l hl
  obtain ⟨f, hf, rfl⟩ := List.mem_map.mp hl
  rw [isFence_eq_false_iff, Field.trim_line (h f hf)]
  intro heq
  have hblank : ' ' ∈ f.line.toList := by
    rw [Field.toList_line]
    simp
  rw [heq] at hblank
  exact absurd hblank (by decide)

theorem notesText_toSection (n : Nat) (r : Record) :
    (r.toSection n).notesText = r.closedNotes := by
  show String.ofList (lines r.closedNotes.toList).flatten = _
  rw [flatten_lines, String.ofList_toList]

/-- **The section of a record is read as the record.** -/
theorem Writable.read_toSection {r : Record} (h : r.Writable) (origin : String) (n : Nat) :
    (r.toSection n).read origin = ⟨some (.task (r.placed origin n)), []⟩ := by
  have hkeys : (r.fields.map Field.key).Nodup := r.keys_fields.nodup (by decide)
  have hfields : readFields [] (itemsFrom origin (n + 1) r.fields) = ⟨r.fields, []⟩ :=
    readFields_itemsFrom origin (n + 1) h.fields hkeys fun _ _ => List.not_mem_nil
  -- it is a task block: a record writes no include line, and its task line first
  have hkey : ∀ item ∈ itemsFrom origin (n + 1) r.fields, item.key ≠ .inclusion := by
    intro item hitem heq
    have hmem : Key.inclusion ∈ r.fields.map Field.key := by
      rw [← map_key_itemsFrom origin (n + 1) r.fields]
      exact List.mem_map.mpr ⟨item, hitem, heq⟩
    exact absurd (r.keys_fields.subset hmem) (by decide)
  have htask : ((itemsFrom origin (n + 1) r.fields).all fun item => item.key ≠ .task) = false := rfl
  have hitems : readItems ⟨origin, n⟩ r.closedNotes (itemsFrom origin (n + 1) r.fields) =
      ⟨some (.task (r.placed origin n)), []⟩ := by
    unfold readItems readTask
    rw [if_neg (by simpa using hkey), hfields, Logged.silent_bind, htask, ofFields?_fields]
    rfl
  have hblock : readBlock ⟨origin, n⟩ r.closedNotes (entriesFrom origin (n + 1) r.fields) =
      ⟨some (.task (r.placed origin n)), []⟩ := by
    refine readBlock_of_silent _ _ _ (filterMap_unknown?_entriesFrom _ _ _) ?_
    rw [filterMap_item?_entriesFrom, hitems]
  unfold Section.read
  rw [notesText_toSection]
  unfold toSection
  dsimp only
  rw [readEntries_linesOf origin (n + 1) h.fields, Logged.silent_bind, hblock]
  rfl

end Record

/-! ## A text of records -/

/-- The sections that the blocks of records are, the first from line `n` on. -/
def sectionsFrom (n : Nat) : List Record → List Section
  | [] => []
  | r :: rest => r.toSection n :: sectionsFrom (n + r.blockLines.length) rest

/-- The records as they are read from their blocks, the first from line `n` on. -/
def placedFrom (origin : String) (n : Nat) : List Record → List Record
  | [] => []
  | r :: rest => r.placed origin n :: placedFrom origin (n + r.blockLines.length) rest

theorem outside_blockLines (n : Nat) {records : List Record} (h : ∀ r ∈ records, r.Writable) :
    Layout.outside n (records.flatMap Record.blockLines) =
      ⟨[], sectionsFrom n records, none⟩ := by
  induction records generalizing n with
  | nil => rfl
  | cons r rest ih =>
    obtain ⟨hr, hrest⟩ := List.forall_mem_cons.mp h
    have hlines : (r :: rest).flatMap Record.blockLines =
        fenceLine :: linesOf r.fields ++ fenceLine ::
          (lines r.closedNotes.toList ++ rest.flatMap Record.blockLines) := by
      rw [List.flatMap_cons, Record.blockLines, List.append_assoc]
      rfl
    have hnext : n + (linesOf r.fields).length + 2 + (lines r.closedNotes.toList).length =
        n + r.blockLines.length := by
      simp only [Record.blockLines, List.length_append, List.length_cons]
      omega
    -- the notes of a block go up to the fence that opens the next one
    rw [hlines, Layout.outside_section n isFence_fenceLine (Record.isFence_linesOf hr.fields)
      isFence_fenceLine, Layout.outside_append _ hr.closedNotes, hnext, ih _ hrest,
      List.append_nil]
    rfl

theorem readSections_sectionsFrom (origin : String) (n : Nat) {records : List Record}
    (h : ∀ r ∈ records, r.Writable) :
    readSections origin (sectionsFrom n records) =
      ⟨(placedFrom origin n records).map .task, []⟩ := by
  induction records generalizing n with
  | nil => rfl
  | cons r rest ih =>
    obtain ⟨hr, hrest⟩ := List.forall_mem_cons.mp h
    rw [sectionsFrom, readSections, hr.read_toSection, ih _ hrest]
    rfl

theorem lines_joinText {records : List Record} (h : ∀ r ∈ records, r.Writable) :
    lines (String.join (records.map Record.text)).toList =
      records.flatMap Record.blockLines := by
  rw [String.toList_join, List.flatMap_map]
  induction records with
  | nil => rfl
  | cons r rest ih =>
    obtain ⟨hr, hrest⟩ := List.forall_mem_cons.mp h
    rw [List.flatMap_cons, List.flatMap_cons, lines_append r.closed_text, hr.lines_text, ih hrest]

/-- **Records that are written one after the other are read back in order**, and
nothing is reported. -/
theorem readDocument_joinText (origin : String) {records : List Record}
    (h : ∀ r ∈ records, r.Writable) :
    readDocument origin (String.join (records.map Record.text)) =
      ⟨(placedFrom origin 1 records).map .task, []⟩ := by
  unfold readDocument Layout.ofText
  rw [lines_joinText h, outside_blockLines 1 h]
  unfold Layout.read
  rw [readSections_sectionsFrom origin 1 h]
  rfl

end TaskOutline
