import TaskOutline.Proofs.Document.Stage
import TaskOutline.Proofs.Document.Written

/-! # What has been read can be written

A record that comes out of a text satisfies `Record.Writable`, whatever the text:
its label is a trimmed piece of a line, and its notes are a passage without fences.
Each reader is inverted by one lemma here, which says where a part of its result
comes from.
-/
namespace TaskOutline

open Text

/-! ## Where a label comes from -/

/-- A line without its newline is on one line. -/
theorem Text.Lined.newline_not_mem_trim {ls : List (List Char)} (h : Lined ls) :
    ∀ l ∈ ls, '\n' ∉ trim l := by
  induction h with
  | nil => exact fun l hl => absurd hl List.not_mem_nil
  | last _ hl =>
    intro l' hl' hmem
    rw [List.mem_singleton.mp hl'] at hmem
    exact hl (mem_of_mem_trim hmem)
  | @cons l ls hl _ ih =>
    intro l' hl' hmem
    rcases List.mem_cons.mp hl' with rfl | hl'
    · rw [trim_concat_of_blank l (by decide)] at hmem
      exact hl (mem_of_mem_trim hmem)
    · exact ih l' hl' hmem

theorem mem_readEntries {origin : String} {n : Nat} {front : List (List Char)} {e : Entry}
    (h : e ∈ (readEntries origin n front).value) :
    ∃ line ∈ front, ∃ location, e = Entry.ofLine location line := by
  induction front generalizing n with
  | nil => cases h
  | cons line rest ih =>
    unfold readEntries at h
    split at h
    · obtain ⟨line', hline, hfrom⟩ := ih h
      exact ⟨line', List.mem_cons_of_mem _ hline, hfrom⟩
    · rcases List.mem_cons.mp h with rfl | h
      · exact ⟨line, List.mem_cons_self, _, rfl⟩
      · obtain ⟨line', hline, hfrom⟩ := ih h
        exact ⟨line', List.mem_cons_of_mem _ hline, hfrom⟩

/-- The value of a line is trimmed and on one line. -/
theorem Entry.trimmed_value_ofLine (location : Location) {line : List Char}
    (h : '\n' ∉ trim line) :
    Trimmed (Entry.ofLine location line).value.toList ∧
      '\n' ∉ (Entry.ofLine location line).value.toList := by
  unfold Entry.ofLine
  dsimp only
  rw [String.toList_ofList]
  refine ⟨trimmed_trim _, fun hmem => h ?_⟩
  exact mem_of_mem_cutAtBlank (mem_of_mem_trim hmem)

/-- A label is the value of its line, and not empty. -/
theorem Field.value_of_read_label {key : Key} {value s : String}
    (h : Field.read key value = .ok (.label s)) : s = value ∧ value.toList ≠ [] := by
  cases Field.read_eq_ok_iff.mp h with
  | label hne => exact ⟨rfl, by simpa using hne⟩

theorem Record.mem_of_ofFields? {fields : List Field} {notes : String} {location : Location}
    {r : Record} (h : Record.ofFields? fields notes location = some r) :
    r.notes = notes ∧ r.location = location ∧ ∀ s, r.label = some s → .label s ∈ fields := by
  unfold Record.ofFields? at h
  obtain ⟨id, -, rfl⟩ := Option.map_eq_some_iff.mp h
  refine ⟨rfl, rfl, fun s hs => ?_⟩
  obtain ⟨f, hf, hlabel⟩ := List.exists_of_findSome?_eq_some hs
  cases f with
  | label text =>
    cases hlabel
    exact hf
  | _ => cases hlabel

/-! ## Where a record comes from -/

theorem readItems_eq_task {opening : Location} {notes : String} {items : List Item} {r : Record}
    (h : (readItems opening notes items).value = some (.task r)) :
    Record.ofFields? (readFields [] items).value notes opening = some r := by
  rcases readItems_cases opening notes items with ⟨-, heq⟩ | ⟨-, -, heq⟩ | ⟨-, -, heq⟩
  · rw [heq, value_readTask] at h
    obtain ⟨r', hr', htask⟩ := Option.map_eq_some_iff.mp h
    cases htask
    exact hr'
  · rw [heq] at h
    cases h
  · rw [heq] at h
    cases h

theorem readBlock_eq_task {opening : Location} {notes : String} {entries : List Entry} {r : Record}
    (h : (readBlock opening notes entries).value = some (.task r)) :
    Record.ofFields? (readFields [] (entries.filterMap Entry.item?)).value notes opening =
      some r :=
  readItems_eq_task (value_readItems_of_readBlock h)

theorem Section.read_eq_task {origin : String} {s : Section} {r : Record}
    (h : (s.read origin).value = some (.task r)) :
    Record.ofFields? (readFields [] ((readEntries origin (s.line + 1) s.front).value.filterMap
      Entry.item?)).value s.notesText ⟨origin, s.line⟩ = some r := by
  rw [Section.value_read] at h
  exact readBlock_eq_task h

/-- **A record that has been read can be written and read again.** -/
theorem writable_of_read {origin text : String} {r : Record}
    (h : .task r ∈ (readDocument origin text).value) : r.Writable := by
  rw [value_readDocument] at h
  obtain ⟨s, hs, hread⟩ := List.mem_filterMap.mp h
  have hlined : Lined (lines text.toList) := lined_lines _
  have hdrawn : Layout.Drawn (lines text.toList) s := (Layout.drawn_of_mem 1 _).1 s hs
  obtain ⟨hnotes, -, hlabel⟩ := Record.mem_of_ofFields? (Section.read_eq_task hread)
  refine ⟨fun text hlabelled => ?_, ?_⟩
  · -- the label is the value of a line of the front matter
    obtain ⟨item, hitem, hvalue⟩ := mem_readFields (hlabel text hlabelled)
    obtain ⟨e, he, hitem⟩ := List.mem_filterMap.mp hitem
    obtain ⟨key, -, rfl⟩ := Option.map_eq_some_iff.mp hitem
    obtain ⟨line, hline, location, rfl⟩ := mem_readEntries he
    obtain ⟨rfl, hne⟩ := Field.value_of_read_label hvalue
    obtain ⟨htrimmed, honeLine⟩ := Entry.trimmed_value_ofLine location
      (hlined.newline_not_mem_trim line (hdrawn.front line hline))
    exact ⟨hne, htrimmed, honeLine⟩
  · -- the notes are lines up to a fence
    obtain ⟨hlinedNotes, hplain⟩ := hdrawn.lined_notes hlined
    rw [hnotes, Section.notesText, String.toList_ofList, hlinedNotes.lines_flatten]
    exact hplain

end TaskOutline
