import TaskOutline.Proofs.Document.Fences
import TaskOutline.Proofs.Document.Readable

/-! # A text is read pair by pair

The fences of a text are numbered from zero, and every two of them make a section
(`Layout.ofText_eq`).  So all that is read of a text can be told from the indices of its
fences: which blocks there are and in which order, on which lines they begin and which
lines are their notes, whether a fence is left over, and whether anything stands before
the first (`readDocument_byPairs`).
-/
namespace TaskOutline

open Layout

namespace Layout

/-- The parts of a text, by its fences. -/
theorem ofText_eq (text : String) {ls : List (List Char)} (hls : Text.lines text.toList = ls) :
    ofText text = ⟨ls.take (fenceAt ls 0),
      (List.range ((fences ls).length / 2)).map (pairSection ls), unpaired? ls⟩ := by
  unfold ofText
  rw [hls, outside_eq 0, take_fenceAt_zero]
  simp only [Section.move_zero, Nat.add_zero, Option.map_id_fun', id_eq]

theorem mem_fences {ls : List (List Char)} {i : Nat} :
    i ∈ fences ls ↔ ∃ l, ls[i]? = some l ∧ Text.trim l = ['-', '-', '-'] := by
  unfold fences
  rw [List.mem_findIdxs_iff_exists_getElem_pos]
  simp [isFence, List.getElem?_eq_some_iff]

end Layout

/-! ## Around the sections -/

theorem firstText?_eq (n : Nat) (ls : List (List Char)) :
    firstText? n ls = (ls.findIdx? fun l => Text.trim l ≠ []).map (· + n) := by
  induction ls generalizing n with
  | nil => rfl
  | cons l ls ih =>
    rw [firstText?, List.findIdx?_cons, ih]
    by_cases hblank : Text.allBlank l = true
    · have htrim : Text.trim l = [] := Text.trim_eq_nil_iff.mpr hblank
      rw [if_pos hblank, if_neg (by simp [htrim]), Option.map_map]
      refine congrArg (Option.map · _) (funext fun i => ?_)
      show i + (n + 1) = i + 1 + n
      omega
    · have htrim : Text.trim l ≠ [] := fun h => hblank (Text.trim_eq_nil_iff.mp h)
      rw [if_neg hblank, if_pos (by simp [htrim]), Option.map_some, Nat.zero_add]

theorem Section.Owns.ne_unterminated {origin : String} {s : Section} {d : Diagnostic}
    (h : s.Owns origin d) : d.problem ≠ .malformed .unterminated := by
  intro hproblem
  have hown := h.ofSection
  rw [hproblem] at hown
  cases hown

theorem Section.Owns.ne_preamble {origin : String} {s : Section} {d : Diagnostic}
    (h : s.Owns origin d) : d.problem ≠ .ignored .preamble := by
  intro hproblem
  have hown := h.ofSection
  rw [hproblem] at hown
  cases hown

/-- What sections report is each owned by one of them. -/
theorem owns_of_mem_log {origin : String} {sections : List Section} {d : Diagnostic}
    (h : d ∈ sections.flatMap fun s => (s.read origin).log) : ∃ s ∈ sections, s.Owns origin d := by
  obtain ⟨s, hs, hd⟩ := List.mem_flatMap.mp h
  exact ⟨s, hs, Section.read_reports origin s d hd⟩

theorem ne_unterminated_of_mem {origin : String} {lead : List (List Char)}
    {sections : List Section} {d : Diagnostic}
    (h : d ∈ (firstText? 1 lead).toList.map (preambleAt origin) ++
      sections.flatMap fun s => (s.read origin).log) :
    d.problem ≠ .malformed .unterminated := by
  rcases List.mem_append.mp h with h | h
  · obtain ⟨n, -, rfl⟩ := List.mem_map.mp h
    exact fun hproblem => by cases hproblem
  · obtain ⟨s, -, hown⟩ := owns_of_mem_log h
    exact hown.ne_unterminated

/-- A text is warned of as one with a preamble at the first line of it that is not
blank, and nowhere else. -/
theorem filter_preamble (origin text : String) :
    (readDocument origin text).log.filter (fun d => d.problem = .ignored .preamble) =
      (firstText? 1 (ofText text).lead).toList.map (preambleAt origin) := by
  have hlead : ∀ d ∈ (firstText? 1 (ofText text).lead).toList.map (preambleAt origin),
      d.problem = .ignored .preamble := by
    intro d hd
    obtain ⟨n, -, rfl⟩ := List.mem_map.mp hd
    rfl
  have hsections : ∀ d ∈ (ofText text).sections.flatMap fun s => (s.read origin).log,
      d.problem ≠ .ignored .preamble := by
    intro d hd
    obtain ⟨s, -, hown⟩ := owns_of_mem_log hd
    exact hown.ne_preamble
  have hend : ∀ d ∈ (ofText text).unterminated.toList.map (unterminatedAt origin),
      d.problem ≠ .ignored .preamble := by
    intro d hd hproblem
    obtain ⟨n, -, rfl⟩ := List.mem_map.mp hd
    cases hproblem
  rw [log_readDocument, List.filter_append, List.filter_append,
    List.filter_eq_self.mpr (by simpa using hlead),
    List.filter_eq_nil_iff.mpr (by simpa using hsections),
    List.filter_eq_nil_iff.mpr (by simpa using hend), List.append_nil, List.append_nil]

/-! ## The document -/

/-- A task is declared on the line of its opening fence, and its notes are the lines
between its pair of fences and the next. -/
theorem Section.read_pair {origin : String} {ls : List (List Char)} {k : Nat} {r : Record}
    (h : ((pairSection ls k).read origin).value = some (.task r)) :
    r.location = ⟨origin, fenceAt ls (2 * k) + 1⟩ ∧
      r.notes = String.ofList
        (linesBetween ls (fenceAt ls (2 * k + 1)) (fenceAt ls (2 * k + 2))).flatten := by
  obtain ⟨hnotes, hlocation, -⟩ := Record.mem_of_ofFields? (Section.read_eq_task h)
  exact ⟨hlocation, hnotes⟩

/-- **What is read of a text, by the indices of its fences.**  The lines of the text are
`ls`, and `fences ls` are the indices of those of them that are fences. -/
structure ReadByPairs (origin text : String) (ls : List (List Char)) : Prop where
  ascending : (fences ls).Pairwise (· < ·)
  isFence : ∀ i, i ∈ fences ls ↔ ∃ l, ls[i]? = some l ∧ Text.trim l = ['-', '-', '-']
  /-- The sections are the pairs of fences, in order. -/
  sections : (ofText text).sections =
    (List.range ((fences ls).length / 2)).map (pairSection ls)
  /-- The blocks are those of the pairs that yield one, in order. -/
  blocks : (readDocument origin text).value =
    (List.range ((fences ls).length / 2)).filterMap fun k => ((pairSection ls k).read origin).value
  /-- A task begins at the first fence of its pair, and has for notes what follows the
  second one up to the next pair or the end. -/
  task : ∀ k r, ((pairSection ls k).read origin).value = some (.task r) →
    r.location = ⟨origin, fenceAt ls (2 * k) + 1⟩ ∧
      r.notes =
        String.ofList (linesBetween ls (fenceAt ls (2 * k + 1)) (fenceAt ls (2 * k + 2))).flatten
  /-- A fence that is left over is reported once, at its line and last of all. -/
  unterminated : (fences ls).length % 2 = 1 → ∃ before,
    (readDocument origin text).log =
        before ++ [unterminatedAt origin (fenceAt ls ((fences ls).length - 1) + 1)] ∧
      ∀ d ∈ before, d.problem ≠ .malformed .unterminated
  terminated : (fences ls).length % 2 = 0 →
    ∀ d ∈ (readDocument origin text).log, d.problem ≠ .malformed .unterminated
  /-- The first line that is not blank is reported where it stands before all fences. -/
  preamble : (readDocument origin text).log.filter (fun d => d.problem = .ignored .preamble) =
    ((ls.take (fenceAt ls 0)).findIdx? fun l => Text.trim l ≠ []).toList.map fun i =>
      preambleAt origin (i + 1)

/-- **A text is read pair by pair.** -/
theorem readDocument_byPairs (origin text : String) :
    ReadByPairs origin text (Text.lines text.toList) := by
  generalize hls : Text.lines text.toList = ls
  have hlayout := ofText_eq text hls
  have hlog := log_readDocument origin text
  refine ⟨List.pairwise_findIdxs, fun _ => mem_fences, ?_, ?_, fun _ _ => Section.read_pair,
    fun hodd => ?_, fun heven => ?_, ?_⟩
  · rw [hlayout]
  · rw [value_readDocument, hlayout, List.filterMap_map]
    rfl
  · have hlast : (ofText text).unterminated =
        some (fenceAt ls ((fences ls).length - 1) + 1) := by
      rw [hlayout]
      exact if_pos hodd
    rw [hlast] at hlog
    exact ⟨_, hlog, fun d => ne_unterminated_of_mem⟩
  · have hnone : (ofText text).unterminated = none := by
      rw [hlayout]
      exact if_neg (by omega)
    rw [hnone, Option.toList_none, List.map_nil, List.append_nil] at hlog
    rw [hlog]
    exact fun d => ne_unterminated_of_mem
  · rw [filter_preamble, firstText?_eq, hlayout, Option.toList_map, List.map_map]
    rfl

end TaskOutline
