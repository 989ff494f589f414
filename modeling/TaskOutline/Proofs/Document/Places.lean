import TaskOutline.Proofs.Document.Pairs

/-! # Reports stand on lines of the text

All that is reported of a text stands on one of its lines (`readDocument_liesIn`), and
what a text says stands on a fence, the opening one of its block
(`readDocument_isFenceOf`).  Both are read off the pairs of fences: what a section reports
stands between the two fences of a pair, and these are lines of the text.
-/
namespace TaskOutline

/-- The location is a line of a text, whatever the name of the text. -/
def Location.LiesIn (text : String) (l : Location) : Prop :=
  1 ≤ l.line ∧ l.line ≤ (Text.lines text.toList).length

/-- The location is a fence of a text, whatever the name of the text. -/
def Location.IsFenceOf (text : String) (l : Location) : Prop :=
  1 ≤ l.line ∧ ∃ line, (Text.lines text.toList)[l.line - 1]? = some line ∧
    Text.trim line = ['-', '-', '-']

theorem Location.IsFenceOf.liesIn {text : String} {l : Location} (h : l.IsFenceOf text) :
    l.LiesIn text := by
  obtain ⟨hpos, line, hline, -⟩ := h
  obtain ⟨hlt, -⟩ := List.getElem?_eq_some_iff.mp hline
  exact ⟨hpos, by omega⟩

/-! ## Fences are lines -/

namespace Layout

variable {ls : List (List Char)} {j : Nat}

theorem fenceAt_eq_getElem (h : j < (fences ls).length) : fenceAt ls j = (fences ls)[j] :=
  List.getD_eq_getElem _ _ h

theorem fenceAt_mem (h : j < (fences ls).length) : fenceAt ls j ∈ fences ls := by
  rw [fenceAt_eq_getElem h]
  exact List.getElem_mem h

theorem fenceAt_lt_length (h : j < (fences ls).length) : fenceAt ls j < ls.length := by
  obtain ⟨line, hline, -⟩ := mem_fences.mp (fenceAt_mem h)
  exact (List.getElem?_eq_some_iff.mp hline).1

theorem fenceAt_lt_fenceAt {i : Nat} (hij : i < j) (h : j < (fences ls).length) :
    fenceAt ls i < fenceAt ls j := by
  rw [fenceAt_eq_getElem (hij.trans h), fenceAt_eq_getElem h]
  exact List.pairwise_iff_getElem.mp List.pairwise_findIdxs i j _ _ hij

/-- A section of a text is that of a pair of its fences. -/
theorem exists_pair {text : String} {s : Section} (h : s ∈ (ofText text).sections) :
    ∃ k, 2 * k + 1 < (fences (Text.lines text.toList)).length ∧
      s = pairSection (Text.lines text.toList) k := by
  rw [ofText_eq text rfl] at h
  obtain ⟨k, hk, rfl⟩ := List.mem_map.mp h
  have hlt := List.mem_range.mp hk
  exact ⟨k, by omega, rfl⟩

/-- The closing fence of a section is a line. -/
theorem pairSection_le_length {k : Nat} (h : 2 * k + 1 < (fences ls).length) :
    (pairSection ls k).line + (pairSection ls k).front.length + 1 ≤ ls.length := by
  have hopening : fenceAt ls (2 * k) < fenceAt ls (2 * k + 1) := fenceAt_lt_fenceAt (by omega) h
  have hclosing : fenceAt ls (2 * k + 1) < ls.length := fenceAt_lt_length h
  show fenceAt ls (2 * k) + 1 + (linesBetween ls _ _).length + 1 ≤ ls.length
  rw [linesBetween, List.length_drop, List.length_take, Nat.min_eq_left hclosing.le]
  omega

end Layout

open Layout

/-- A section opens with a fence of the text. -/
theorem Section.isFenceOf_line {text : String} {s : Section} (h : s ∈ (ofText text).sections)
    (origin : String) : Location.IsFenceOf text ⟨origin, s.line⟩ := by
  obtain ⟨k, hk, rfl⟩ := exists_pair h
  have hfence : 2 * k < (fences (Text.lines text.toList)).length := by omega
  obtain ⟨line, hline, htrim⟩ := mem_fences.mp (fenceAt_mem hfence)
  exact ⟨Nat.le_add_left 1 _, line, hline, htrim⟩

/-- From its opening fence to the closing one a section lies in the text. -/
theorem Location.Within.liesIn {text origin : String} {s : Section} {l : Location}
    (hs : s ∈ (ofText text).sections) (h : l.Within origin s.line (s.front.length + 1)) :
    l.LiesIn text := by
  obtain ⟨-, hge, hlt⟩ := h
  have hpos : 1 ≤ s.line := (Section.isFenceOf_line hs origin).1
  obtain ⟨k, hk, rfl⟩ := exists_pair hs
  have hle := pairSection_le_length hk
  exact ⟨by omega, by omega⟩

/-! ## What is reported -/

theorem firstText?_liesIn {text : String} {n : Nat} (h : firstText? 1 (ofText text).lead = some n)
    (origin : String) : Location.LiesIn text ⟨origin, n⟩ := by
  rw [firstText?_eq, ofText_eq text rfl] at h
  obtain ⟨i, hi, rfl⟩ := Option.map_eq_some_iff.mp h
  obtain ⟨hlt, -⟩ := List.findIdx?_eq_some_iff_getElem.mp hi
  rw [List.length_take] at hlt
  exact ⟨Nat.le_add_left 1 i, show i + 1 ≤ _ by omega⟩

theorem unterminated_liesIn {text : String} {n : Nat} (h : (ofText text).unterminated = some n)
    (origin : String) : Location.LiesIn text ⟨origin, n⟩ := by
  rw [ofText_eq text rfl, unpaired?] at h
  split at h
  · rename_i hodd
    cases h
    exact ⟨Nat.le_add_left 1 _, fenceAt_lt_length (by omega)⟩
  · cases h

/-- The diagnostic stands on a line of a text that is read under a name. -/
def Diagnostic.StandsIn (origin text : String) (d : Diagnostic) : Prop :=
  ∃ l, d.location = some l ∧ l.origin = origin ∧ l.LiesIn text

/-- **All that is reported of a text stands on one of its lines.** -/
theorem readDocument_liesIn (origin text : String) :
    (readDocument origin text).Reports (Diagnostic.StandsIn origin text) := by
  intro d hd
  rw [log_readDocument] at hd
  rcases List.mem_append.mp hd with hd | hd
  · rcases List.mem_append.mp hd with hd | hd
    · -- before the first fence
      obtain ⟨n, hn, rfl⟩ := List.mem_map.mp hd
      exact ⟨_, rfl, rfl, firstText?_liesIn (Option.mem_toList.mp hn) origin⟩
    · -- in a section
      obtain ⟨s, hs, hown⟩ := owns_of_mem_log hd
      obtain ⟨l, hl, hwithin⟩ := hown.location
      exact ⟨l, hl, hwithin.1, hwithin.liesIn hs⟩
  · -- at a fence that is left over
    obtain ⟨n, hn, rfl⟩ := List.mem_map.mp hd
    exact ⟨_, rfl, rfl, unterminated_liesIn (Option.mem_toList.mp hn) origin⟩

/-! ## What is said -/

/-- Where a block opens. -/
def Block.location : Block → Location
  | .task record => record.location
  | .inclusion files => files.location

/-- Where a step is asked for. -/
def Step.location : Step → Location
  | .task record => record.location
  | .visit _ location => location

theorem Block.location_of_mem_steps {block : Block} {step : Step} (h : step ∈ block.steps) :
    step.location = block.location := by
  cases block with
  | task record =>
    obtain rfl := List.mem_singleton.mp h
    rfl
  | inclusion files =>
    obtain ⟨path, -, rfl⟩ := List.mem_map.mp h
    rfl

theorem Section.location_of_read {origin : String} {s : Section} {block : Block}
    (h : (s.read origin).value = some block) : block.location = ⟨origin, s.line⟩ := by
  cases block with
  | task record => exact (Record.mem_of_ofFields? (Section.read_eq_task h)).2.1
  | inclusion files =>
    rw [Section.value_read] at h
    rw [Block.location, readBlock_eq_inclusion h]

/-- A block stands on a fence of its text. -/
theorem Block.isFenceOf {origin text : String} {block : Block}
    (h : block ∈ (readDocument origin text).value) :
    block.location.origin = origin ∧ block.location.IsFenceOf text := by
  rw [value_readDocument] at h
  obtain ⟨s, hs, hread⟩ := List.mem_filterMap.mp h
  rw [Section.location_of_read hread]
  exact ⟨rfl, Section.isFenceOf_line hs origin⟩

/-- **All that a text asks for stands on the opening fence of a block.** -/
theorem readDocument_isFenceOf {origin text : String} {step : Step}
    (h : step ∈ (readDocument origin text).value.flatMap Block.steps) :
    step.location.origin = origin ∧ step.location.IsFenceOf text := by
  obtain ⟨block, hblock, hstep⟩ := List.mem_flatMap.mp h
  rw [Block.location_of_mem_steps hstep]
  exact Block.isFenceOf hblock

end TaskOutline
