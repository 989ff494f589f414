import TaskOutline.Proofs.Document.Drafts
import TaskOutline.Proofs.Document.Meaning
import TaskOutline.Proofs.Property.Values

/-! # Fields are read back

A record is written field by field, one line each.  `Field.line` is the line of a
field, and a front matter of such lines is read back as the fields, without a
report, when each of them has something to say (`Field.Writable`) and no key stands
twice.
-/
namespace TaskOutline

open Text

/-! ## One field -/

/-- A text that can be the value of a line: not empty, without blanks at its ends,
and on one line. -/
structure IsLineValue (s : String) : Prop where
  ne_nil : s.toList ≠ []
  trimmed : Trimmed s.toList
  oneLine : '\n' ∉ s.toList

theorem Text.IsWord.isLineValue {s : String} (h : IsWord s.toList) : IsLineValue s where
  ne_nil := h.ne_nil
  trimmed := h.trimmed
  oneLine hmem := absurd (h.solid _ hmem) (by decide)

theorem Key.ofText?_text (key : Key) : Key.ofText? key.text = some key := by
  cases key <;> rfl

theorem Key.isWord_text (key : Key) : IsWord key.text.toList := by
  cases key <;> exact isWord_of_all rfl

namespace Field

/-- The value of a field as it is written. -/
def valueText : Field → String
  | task id => id.text
  | label text => text
  | status s => s.text
  | priority p => (p.text? Priority.text).getD ""
  | deadline d => (d.text? Date.text).getD ""
  | depends ids => " ".intercalate (ids.map TaskId.text)
  | inclusion path => path

/-- A field that has something to say. -/
def Writable : Field → Prop
  | label text => IsLineValue text
  | priority p => p ≠ .unset
  | deadline d => d ≠ .unset
  | depends ids => ids ≠ []
  | inclusion path => IsLineValue path
  | _ => True

/-- The line of a field. -/
def line (f : Field) : String := f.key.text ++ " " ++ f.valueText

theorem toList_line (f : Field) : f.line.toList = f.key.text.toList ++ ' ' :: f.valueText.toList := by
  simp [line]

theorem valueText_of_declared {α : Type} {d : Declared α} (write : α → String) (h : d ≠ .unset) :
    d.text? write = some ((d.text? write).getD "") := by
  cases d with
  | unset => exact absurd rfl h
  | cleared => rfl
  | value a => rfl

/-- Dependencies with blanks between them can be the value of a line. -/
theorem isLineValue_joinIds {ids : List TaskId} (h : ids ≠ []) :
    IsLineValue (" ".intercalate (ids.map TaskId.text)) := by
  have hword := isWord_of_mem_chars ids
  refine ⟨?_, ?_, ?_⟩
  · rw [toList_joinIds]
    intro hnil
    have hwords := words_intercalate hword
    rw [hnil, words_nil] at hwords
    exact h (List.map_eq_nil_iff.mp hwords.symm)
  · rw [toList_joinIds]
    exact trimmed_intercalate hword
  · rw [toList_joinIds]
    exact newline_not_mem_intercalate hword

theorem Writable.isLineValue {f : Field} (h : f.Writable) : IsLineValue f.valueText := by
  cases f with
  | task id => exact id.isWord_text.isLineValue
  | label text => exact h
  | status s => exact s.isWord_text.isLineValue
  | priority p =>
    exact (Declared.isWord_text Priority.isWord_text
      (valueText_of_declared Priority.text h)).isLineValue
  | deadline d =>
    exact (Declared.isWord_text Date.isWord_text (valueText_of_declared Date.text h)).isLineValue
  | depends ids => exact isLineValue_joinIds h
  | inclusion path => exact h

/-- **A field is read back from what is written for it.** -/
theorem Writable.read_valueText {f : Field} (h : f.Writable) :
    read f.key f.valueText = .ok f := by
  have hne : f.valueText ≠ "" := by simpa using h.isLineValue.ne_nil
  rw [read_eq_ok_iff]
  cases f with
  | task id => exact .task id.read_text
  | label text => exact .label hne
  | status s => exact .status s.read_text
  | priority p => exact .priority (Declared.read_priority (valueText_of_declared Priority.text h))
  | deadline d => exact .deadline (Declared.read_deadline (valueText_of_declared Date.text h))
  | depends ids => exact .depends hne (readIds_joinIds ids)
  | inclusion path => exact .inclusion hne

/-! ## The line of a field -/

theorem trim_line {f : Field} (h : f.Writable) :
    trim (f.line.toList ++ ['\n']) = f.line.toList := by
  have hvalue := h.isLineValue
  rw [trim_concat_of_blank _ (by decide), toList_line]
  exact (Trimmed.key_append f.key.isWord_text hvalue.ne_nil hvalue.trimmed).trim_eq

theorem newline_not_mem_line {f : Field} (h : f.Writable) : '\n' ∉ f.line.toList := by
  rw [toList_line]
  intro hmem
  rcases List.mem_append.mp hmem with hmem | hmem
  · exact absurd (f.key.isWord_text.solid _ hmem) (by decide)
  · rcases List.mem_cons.mp hmem with hmem | hmem
    · cases hmem
    · exact h.isLineValue.oneLine hmem

theorem allBlank_line (f : Field) : allBlank (f.line.toList ++ ['\n']) = false := by
  obtain ⟨c, cs, hc⟩ := List.exists_cons_of_ne_nil f.key.isWord_text.ne_nil
  refine allBlank_of_mem (c := c) ?_ (f.key.isWord_text.solid c (hc ▸ List.mem_cons_self))
  rw [toList_line, hc]
  exact List.mem_cons_self

/-- The entry that the line of a field is. -/
def entry (location : Location) (f : Field) : Entry := ⟨f.key.text, f.valueText, location⟩

/-- The item that the line of a field is. -/
def item (location : Location) (f : Field) : Item := ⟨f.key, f.valueText, location⟩

theorem ofLine_line {f : Field} (h : f.Writable) (location : Location) :
    Entry.ofLine location (f.line.toList ++ ['\n']) = f.entry location := by
  unfold Entry.ofLine
  rw [trim_line h, toList_line, cutAtBlank_append f.key.isWord_text]
  dsimp only
  rw [h.isLineValue.trimmed.trim_eq, String.ofList_toList, String.ofList_toList]
  rfl

theorem item?_entry (location : Location) (f : Field) :
    (f.entry location).item? = some (f.item location) := by
  unfold Entry.item? entry
  rw [Key.ofText?_text]
  rfl

theorem unknown?_entry (location : Location) (f : Field) : (f.entry location).unknown? = none := by
  unfold Entry.unknown? entry
  dsimp only
  rw [Key.ofText?_text]

end Field

/-! ## A front matter -/

/-- The lines of fields. -/
def linesOf (fields : List Field) : List (List Char) :=
  fields.map fun f => f.line.toList ++ ['\n']

/-- The items that the lines of fields are, the first of them being line `n`. -/
def itemsFrom (origin : String) (n : Nat) : List Field → List Item
  | [] => []
  | f :: rest => f.item ⟨origin, n⟩ :: itemsFrom origin (n + 1) rest

/-- The entries that the lines of fields are, the first of them being line `n`. -/
def entriesFrom (origin : String) (n : Nat) : List Field → List Entry
  | [] => []
  | f :: rest => f.entry ⟨origin, n⟩ :: entriesFrom origin (n + 1) rest

theorem readEntries_linesOf (origin : String) (n : Nat) {fields : List Field}
    (h : ∀ f ∈ fields, f.Writable) :
    readEntries origin n (linesOf fields) = ⟨entriesFrom origin n fields, []⟩ := by
  induction fields generalizing n with
  | nil => rfl
  | cons f rest ih =>
    obtain ⟨hf, hrest⟩ := List.forall_mem_cons.mp h
    show readEntries origin n ((f.line.toList ++ ['\n']) :: linesOf rest) = _
    rw [readEntries, if_neg (by simp [Field.allBlank_line]), ih (n + 1) hrest,
      Field.ofLine_line hf]
    rfl

theorem filterMap_item?_entriesFrom (origin : String) (n : Nat) (fields : List Field) :
    (entriesFrom origin n fields).filterMap Entry.item? = itemsFrom origin n fields := by
  induction fields generalizing n with
  | nil => rfl
  | cons f rest ih =>
    rw [entriesFrom, List.filterMap_cons_some (f.item?_entry _), ih]
    rfl

theorem filterMap_unknown?_entriesFrom (origin : String) (n : Nat) (fields : List Field) :
    (entriesFrom origin n fields).filterMap Entry.unknown? = [] := by
  induction fields generalizing n with
  | nil => rfl
  | cons f rest ih => rw [entriesFrom, List.filterMap_cons_none (f.unknown?_entry _), ih]

theorem map_key_itemsFrom (origin : String) (n : Nat) (fields : List Field) :
    (itemsFrom origin n fields).map Item.key = fields.map Field.key := by
  induction fields generalizing n with
  | nil => rfl
  | cons f rest ih =>
    rw [itemsFrom, List.map_cons, List.map_cons, ih]
    rfl

/-- **Fields are read back from their lines**, where no key stands twice. -/
theorem readFields_itemsFrom (origin : String) (n : Nat) {fields : List Field}
    (h : ∀ f ∈ fields, f.Writable) (hkeys : (fields.map Field.key).Nodup) {seen : List Key}
    (hseen : ∀ f ∈ fields, f.key ∉ seen) :
    readFields seen (itemsFrom origin n fields) = ⟨fields, []⟩ := by
  induction fields generalizing n seen with
  | nil => rfl
  | cons f rest ih =>
    obtain ⟨hf, hrest⟩ := List.forall_mem_cons.mp h
    obtain ⟨hfirst, hkeys⟩ := List.nodup_cons.mp hkeys
    obtain ⟨hfseen, hrestseen⟩ := List.forall_mem_cons.mp hseen
    -- the key of the first field counts as seen from here on
    have hseen' : ∀ g ∈ rest, g.key ∉ f.key :: seen := by
      intro g hg hmem
      rcases List.mem_cons.mp hmem with heq | hmem
      · exact hfirst (List.mem_map.mpr ⟨g, hg, heq⟩)
      · exact hrestseen g hg hmem
    have hnew : ¬ ((f.item ⟨origin, n⟩).key ∈ seen ∧ !(f.item ⟨origin, n⟩).key.mayRepeat) :=
      fun hrep => hfseen hrep.1
    rw [itemsFrom, readFields_of_ok _ _ hnew hf.read_valueText]
    show (readFields (f.key :: seen) _ >>= _) = _
    rw [ih (n + 1) hrest hkeys hseen']
    rfl

end TaskOutline
