import TaskOutline.Proofs.Document.Holds
import TaskOutline.Proofs.Document.Pairs

/-! # Which sections yield blocks

A section yields a block when its properties follow the grammar, and reports an error
otherwise; it never does both or neither (`Section.readByGrammar`).  All that can be
reported of a section at an error's severity is reported by `readBlock`, so that the
block and the silence of `readBlock` come and go together.
-/
namespace TaskOutline

/-! ## Entries -/

/-- The property that an entry is. -/
def Entry.property (e : Entry) : String × String := (e.key, e.value)

/-- The entries of a front matter are its properties. -/
theorem map_property_readEntries (origin : String) (n : Nat) (front : List (List Char)) :
    (readEntries origin n front).value.map Entry.property =
      (front.filter fun line => Text.trim line ≠ []).map propertyOf := by
  induction front generalizing n with
  | nil => rfl
  | cons line rest ih =>
    unfold readEntries
    by_cases hblank : Text.allBlank line = true
    · have htrim : Text.trim line = [] := Text.trim_eq_nil_iff.mpr hblank
      rw [if_pos hblank, List.filter_cons_of_neg (by simp [htrim])]
      exact ih (n + 1)
    · have htrim : Text.trim line ≠ [] := fun h => hblank (Text.trim_eq_nil_iff.mp h)
      rw [if_neg hblank, List.filter_cons_of_pos (by simp [htrim]), List.map_cons, ← ih (n + 1)]
      rfl

/-- Every key of the properties is known. -/
def KnownKeys (front : List (String × String)) : Prop := ∀ p ∈ front, ∃ key : Key, p.1 = key.text

theorem IsTask.knownKeys {front : List (String × String)} (h : IsTask front) :
    KnownKeys front := by
  intro p hp
  have hkey := h.keys p hp
  simp only [List.mem_cons, List.not_mem_nil, or_false] at hkey
  rcases hkey with hkey | hkey | hkey | hkey | hkey | hkey
  exacts [⟨.task, hkey⟩, ⟨.label, hkey⟩, ⟨.status, hkey⟩, ⟨.priority, hkey⟩, ⟨.deadline, hkey⟩,
    ⟨.depends, hkey⟩]

theorem IsInclusion.knownKeys {front : List (String × String)} (h : IsInclusion front) :
    KnownKeys front :=
  fun p hp => ⟨.inclusion, (h.files p hp).1⟩

theorem Entry.unknown?_eq_none_iff {e : Entry} :
    e.unknown? = none ↔ ∃ key : Key, e.key = key.text := by
  unfold Entry.unknown?
  cases hkey : Key.ofText? e.key with
  | none =>
    refine ⟨fun h => (by cases h), ?_⟩
    rintro ⟨key, h⟩
    rw [Key.ofText?_eq_some_iff.mpr h] at hkey
    cases hkey
  | some key => exact ⟨fun _ => ⟨key, Key.ofText?_eq_some_iff.mp hkey⟩, fun _ => rfl⟩

section Entries

variable {entries : List Entry}

theorem filterMap_unknown?_eq_nil_iff :
    entries.filterMap Entry.unknown? = [] ↔ KnownKeys (entries.map Entry.property) := by
  rw [List.filterMap_eq_nil_iff, KnownKeys, List.forall_mem_map]
  exact forall₂_congr fun _ _ => Entry.unknown?_eq_none_iff

/-- Where every key is known, the items are all the properties. -/
theorem map_property_item? (h : KnownKeys (entries.map Entry.property)) :
    (entries.filterMap Entry.item?).map Item.property = entries.map Entry.property := by
  induction entries with
  | nil => rfl
  | cons e rest ih =>
    obtain ⟨⟨key, (hkey : e.key = key.text)⟩, hrest⟩ := List.forall_mem_cons.mp h
    have hitem : e.item? = some ⟨key, e.value, e.location⟩ := by
      rw [Entry.item?, Key.ofText?_eq_some_iff.mpr hkey]
      rfl
    rw [List.filterMap_cons_some hitem, List.map_cons, List.map_cons, ih hrest]
    exact congrArg (fun key => (key, e.value) :: _) hkey.symm

/-! ## Blocks -/

variable (opening : Location) (notes : String)

/-- **A block is read silently** when its properties follow the grammar. -/
theorem readBlock_silent_iff : (readBlock opening notes entries).log = [] ↔
    IsTask (entries.map Entry.property) ∨ IsInclusion (entries.map Entry.property) := by
  rw [log_readBlock, List.append_eq_nil_iff, filterMap_unknown?_eq_nil_iff, readItems_silent_iff]
  constructor
  · rintro ⟨hknown, hgrammar⟩
    rwa [map_property_item? hknown] at hgrammar
  · intro hgrammar
    have hknown : KnownKeys (entries.map Entry.property) :=
      hgrammar.elim IsTask.knownKeys IsInclusion.knownKeys
    exact ⟨hknown, by rwa [map_property_item? hknown]⟩

theorem value_readBlock_of_isTask (h : IsTask (entries.map Entry.property)) :
    ∃ r, (readBlock opening notes entries).value = some (.task r) ∧
      Holds (entries.map Entry.property) r ∧ r.notes = notes ∧ r.location = opening := by
  have hitems := map_property_item? h.knownKeys
  rw [value_readBlock_of_silent opening notes _ ((readBlock_silent_iff opening notes).mpr (.inl h)),
    ← hitems]
  exact readItems_task opening notes (by rwa [hitems])

theorem value_readBlock_of_isInclusion (h : IsInclusion (entries.map Entry.property)) :
    (readBlock opening notes entries).value =
      some (.inclusion ⟨(entries.map Entry.property).map Prod.snd, opening⟩) := by
  have hitems := map_property_item? h.knownKeys
  rw [value_readBlock_of_silent opening notes _ ((readBlock_silent_iff opening notes).mpr (.inr h)),
    ← hitems]
  exact readItems_inclusion opening notes (by rwa [hitems])

end Entries

/-! ## Sections -/

namespace Section

variable (origin : String) (s : Section)

theorem map_property_entries :
    (readEntries origin (s.line + 1) s.front).value.map Entry.property = s.properties :=
  map_property_readEntries origin (s.line + 1) s.front

/-- The errors of a section are those of its block. -/
theorem filter_isError_read :
    (s.read origin).log.filter Diagnostic.isError = (s.block origin).log := by
  have hentries : (readEntries origin (s.line + 1) s.front).log.filter Diagnostic.isError = [] := by
    refine List.filter_eq_nil_iff.mpr fun d hd => ?_
    rw [Diagnostic.isError, (readEntries_reports origin (s.line + 1) s.front d hd).severity]
    decide
  have hblock : (s.block origin).log.filter Diagnostic.isError = (s.block origin).log := by
    refine List.filter_eq_self.mpr fun d hd => ?_
    have herror := (readBlock_reports (P := fun _ => True) s.notesText trivial
      (fun _ _ => trivial) d hd).severity
    rw [Diagnostic.isError, herror]
    rfl
  unfold block at hblock ⊢
  unfold Section.read
  rw [Logged.log_bind, Logged.log_bind, List.filter_append, List.filter_append, hentries, hblock]
  split
  · split <;> simp [Diagnostic.isError]
  · simp

/-- **What is read of a section, by the grammar.** -/
structure ReadByGrammar : Prop where
  /-- There is a block when the properties follow the grammar. -/
  isSome_iff : (s.read origin).value.isSome ↔ IsTask s.properties ∨ IsInclusion s.properties
  /-- The block of a task holds what the properties say, and the notes. -/
  task : IsTask s.properties → ∃ r, (s.read origin).value = some (.task r) ∧
    Holds s.properties r ∧ r.notes = s.notesText ∧ r.location = ⟨origin, s.line⟩
  /-- The block of files holds the paths in order. -/
  inclusion : IsInclusion s.properties →
    (s.read origin).value = some (.inclusion ⟨s.properties.map Prod.snd, ⟨origin, s.line⟩⟩)
  /-- With a block, no error is reported. -/
  silent : (s.read origin).value.isSome → ∀ d ∈ (s.read origin).log, d.severity ≠ .error
  /-- Without one, an error is reported on one of the lines of the front matter. -/
  reported : (s.read origin).value = none → ∃ d ∈ (s.read origin).log, d.severity = .error ∧
    ∃ l, d.location = some l ∧ l.Within origin s.line (s.front.length + 1)

theorem block_silent_iff :
    (s.block origin).log = [] ↔ IsTask s.properties ∨ IsInclusion s.properties := by
  rw [← s.map_property_entries origin]
  exact readBlock_silent_iff _ _

theorem value_read_of_isTask (h : IsTask s.properties) :
    ∃ r, (s.read origin).value = some (.task r) ∧
      Holds s.properties r ∧ r.notes = s.notesText ∧ r.location = ⟨origin, s.line⟩ := by
  rw [value_read]
  rw [← s.map_property_entries origin] at h ⊢
  exact value_readBlock_of_isTask _ _ h

theorem value_read_of_isInclusion (h : IsInclusion s.properties) :
    (s.read origin).value =
      some (.inclusion ⟨s.properties.map Prod.snd, ⟨origin, s.line⟩⟩) := by
  rw [value_read]
  rw [← s.map_property_entries origin] at h ⊢
  exact value_readBlock_of_isInclusion _ _ h

/-- A section yields a block when its block is read silently. -/
theorem isSome_value_read_iff : (s.read origin).value.isSome ↔ (s.block origin).log = [] := by
  constructor
  · intro h
    by_contra hreport
    rw [value_read, block, value_readBlock_of_report _ _ _ hreport] at h
    cases h
  · intro h
    rcases (s.block_silent_iff origin).mp h with htask | hinclusion
    · obtain ⟨r, hr, -⟩ := s.value_read_of_isTask origin htask
      rw [hr]
      rfl
    · rw [s.value_read_of_isInclusion origin hinclusion]
      rfl

/-- **A section is read by the grammar.** -/
theorem readByGrammar : s.ReadByGrammar origin where
  isSome_iff := (s.isSome_value_read_iff origin).trans (s.block_silent_iff origin)
  task := s.value_read_of_isTask origin
  inclusion := s.value_read_of_isInclusion origin
  silent h d hd herror := by
    have hmem : d ∈ (s.read origin).log.filter Diagnostic.isError :=
      List.mem_filter.mpr ⟨hd, beq_iff_eq.mpr herror⟩
    rw [filter_isError_read, (s.isSome_value_read_iff origin).mp h] at hmem
    cases hmem
  reported h := by
    have hreport : (s.block origin).log ≠ [] := by
      rw [Ne, ← isSome_value_read_iff, h]
      exact Bool.false_ne_true
    obtain ⟨d, hd⟩ := List.exists_mem_of_ne_nil _ hreport
    rw [← filter_isError_read, List.mem_filter] at hd
    exact ⟨d, hd.1, beq_iff_eq.mp hd.2, (s.read_reports origin d hd.1).location⟩

end Section

/-! ## A document -/

/-- **The grammar of a text.**  Each pair of fences is read by the grammar of front
matters; the blocks of the text are those of its pairs in order, and so are its reports
but for a preamble and for a fence that is left over. -/
theorem readDocument_grammar (origin text : String) :
    (Layout.ofText text).sections =
        (List.range ((Layout.fences (Text.lines text.toList)).length / 2)).map
          (Layout.pairSection (Text.lines text.toList)) ∧
      (readDocument origin text).value =
        (Layout.ofText text).sections.filterMap (fun s => (s.read origin).value) ∧
      (readDocument origin text).log =
        (firstText? 1 (Layout.ofText text).lead).toList.map (preambleAt origin) ++
          (Layout.ofText text).sections.flatMap (fun s => (s.read origin).log) ++
          (Layout.ofText text).unterminated.toList.map (unterminatedAt origin) ∧
      ∀ s ∈ (Layout.ofText text).sections, s.ReadByGrammar origin := by
  have hsections := congrArg Layout.sections (Layout.ofText_eq text rfl)
  exact ⟨hsections, value_readDocument origin text, log_readDocument origin text,
    fun s _ => s.readByGrammar origin⟩

end TaskOutline
