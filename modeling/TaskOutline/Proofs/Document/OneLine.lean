import TaskOutline.Proofs.Document.Readable
import TaskOutline.Proofs.Text.OneLine

/-! # Reports on one line

What is wrong with a document is told with pieces of its lines: keys, values, and parts of
identifiers.  None of them has a newline in it, so that the wording of every problem is on
one line (`readDocument_oneLine`), and so is every path that is included
(`oneLine_of_visit`).
-/
namespace TaskOutline

open Text

/-- The line of a diagnostic is one line, if the name of the text and the wording are. -/
theorem Diagnostic.oneLine_text {d : Diagnostic}
    (horigin : ∀ l, d.location = some l → OneLine l.origin) (hmessage : OneLine d.problem.message) :
    OneLine d.text := by
  have hseverity : OneLine d.severity.text := by
    cases d.severity <;> exact .of_chars (by decide)
  have hkind : OneLine d.problem.kind := by
    cases d.problem <;> exact .of_chars (by decide)
  have hsigns : OneLine "[" ∧ OneLine "]: " ∧ OneLine ":" ∧ OneLine ": " := by
    refine ⟨?_, ?_, ?_, ?_⟩ <;> exact .of_chars (by decide)
  obtain ⟨hopen, hclose, hcolon, hblank⟩ := hsigns
  simp only [text, oneLine_append]
  refine ⟨⟨⟨⟨⟨?_, hseverity⟩, hopen⟩, hkind⟩, hclose⟩, hmessage⟩
  cases hlocation : d.location with
  | none => exact .of_chars (by decide)
  | some l => simp [Location.text, horigin l hlocation, hcolon, hblank]

theorem Key.oneLine_text (key : Key) : OneLine key.text := by
  cases key <;> exact .of_chars (by decide)

/-! ## Values that are refused -/

theorem TaskId.oneLine_of_readSegment {part : List Char} {e : IdError}
    (h : readSegment part = .error e) (hpart : '\n' ∉ part) : OneLine e.message := by
  have htext : OneLine (String.ofList part) := oneLine_ofList.mpr hpart
  have hwhat : OneLine ("Task ID part '" ++ String.ofList part) :=
    oneLine_append.mpr ⟨.of_chars (by decide), htext⟩
  unfold readSegment at h
  split at h
  · cases h
    exact oneLine_append.mpr ⟨hwhat, .of_chars (by decide)⟩
  · split at h
    · cases h
      exact oneLine_append.mpr ⟨hwhat, .of_chars (by decide)⟩
    · split at h
      · cases h
      · cases h
        show OneLine ("Task ID part '" ++ String.ofList part ++ "' is too large (maximum " ++
          natText maxSegment ++ ")")
        simp only [oneLine_append]
        exact ⟨⟨⟨oneLine_append.mp hwhat, .of_chars (by decide)⟩, oneLine_natText _⟩,
          .of_chars (by decide)⟩

theorem TaskId.oneLine_of_readSegments {parts : List (List Char)} {e : IdError}
    (h : readSegments parts = .error e) (hparts : ∀ part ∈ parts, '\n' ∉ part) :
    OneLine e.message := by
  induction parts with
  | nil => cases h
  | cons part parts ih =>
    obtain ⟨hpart, hrest⟩ := List.forall_mem_cons.mp hparts
    rcases Except.bind_eq_error h with h | ⟨n, -, h⟩
    · exact oneLine_of_readSegment h hpart
    · rcases Except.bind_eq_error h with h | ⟨ns, -, h⟩
      · exact ih h hrest
      · cases h

theorem TaskId.oneLine_of_parse {s : String} {e : IdError} (h : parse s = .error e)
    (hs : OneLine s) : OneLine e.message := by
  unfold parse readTrimmed at h
  split at h
  · cases h
    exact .of_chars (by decide)
  · split at h
    · cases h
      exact .of_chars (by decide)
    · rename_i part parts hsplit
      have hparts : ∀ piece ∈ part :: parts, '\n' ∉ piece := fun piece hpiece hmem =>
        hs (mem_of_mem_trim (mem_of_mem_splitOnP piece (hsplit ▸ hpiece) _ hmem))
      obtain ⟨hpart, hrest⟩ := List.forall_mem_cons.mp hparts
      rcases Except.bind_eq_error h with h | ⟨n, -, h⟩
      · exact oneLine_of_readSegment h hpart
      · rcases Except.bind_eq_error h with h | ⟨ns, -, h⟩
        · exact oneLine_of_readSegments h hrest
        · cases h

namespace Field

/-- A value that is refused is reported on one line, if the cause is told on one. -/
theorem oneLine_of_readValue {α : Type} {key : Key} {read : String → Except Reason α}
    {value : String} {problem : Problem} (h : readValue key read value = .error problem)
    (hread : ∀ reason, read value = .error reason → OneLine reason.message)
    (hvalue : OneLine value) : OneLine problem.message := by
  obtain ⟨reason, hreason, rfl⟩ := Except.mapError_eq_error h
  have hinvalid : OneLine "Invalid " := .of_chars (by decide)
  have hmiddle : OneLine " value '" := .of_chars (by decide)
  have hcolon : OneLine "': " := .of_chars (by decide)
  show OneLine ("Invalid " ++ key.text ++ " value '" ++ value ++ "': " ++ reason.message)
  simp only [oneLine_append]
  exact ⟨⟨⟨⟨⟨hinvalid, key.oneLine_text⟩, hmiddle⟩, hvalue⟩, hcolon⟩, hread reason hreason⟩

theorem oneLine_of_readText {refusal reason : Reason} {value : String}
    (h : readText refusal value = .error reason) (hrefusal : OneLine refusal.message) :
    OneLine reason.message := by
  unfold readText at h
  split at h
  · cases h
    exact hrefusal
  · cases h

theorem oneLine_of_parse_status {value : String} {reason : Reason}
    (h : Status.parse value = .error reason) : OneLine reason.message := by
  unfold Status.parse at h
  split at h
  · cases h
  · cases h
    exact .of_chars (by decide)

theorem oneLine_of_parse_priority {value : String} {reason : Reason}
    (h : Priority.parse value = .error reason) : OneLine reason.message := by
  unfold Priority.parse at h
  split at h
  · cases h
    exact .of_chars (by decide)
  · split at h
    · split at h
      · cases h
      · cases h
        exact .of_chars (by decide)
    · cases h
      exact .of_chars (by decide)

theorem oneLine_of_parse_date {value : String} {reason : Reason}
    (h : Date.parse value = .error reason) : OneLine reason.message := by
  unfold Date.parse at h
  split at h
  · cases h
    exact .of_chars (by decide)
  · split at h
    · cases h
      exact .of_chars (by decide)
    · cases h

theorem oneLine_of_parse_declared {α : Type} {read : String → Except Reason α}
    (hread : ∀ {value : String} {reason : Reason}, read value = .error reason →
      OneLine reason.message)
    {value : String} {reason : Reason} (h : Declared.parse read value = .error reason) :
    OneLine reason.message := by
  unfold Declared.parse at h
  split at h
  · cases h
  · exact hread (Except.map_eq_error h)

theorem oneLine_of_readIds {list : String} {e : IdError} (h : readIds list = .error e)
    (hlist : OneLine list) : OneLine e.message := by
  have hwords : ∀ word ∈ words list.toList, OneLine (String.ofList word) := fun word hword =>
    oneLine_ofList.mpr fun hmem => hlist (mem_of_mem_words hword _ hmem)
  unfold readIds at h
  generalize words list.toList = ws at h hwords
  induction ws generalizing e with
  | nil => cases h
  | cons word ws ih =>
    obtain ⟨hword, hrest⟩ := List.forall_mem_cons.mp hwords
    rw [List.mapM_cons] at h
    rcases Except.bind_eq_error h with h | ⟨id, -, h⟩
    · exact TaskId.oneLine_of_parse h hword
    · rcases Except.bind_eq_error h with h | ⟨ids, -, h⟩
      · exact ih h hrest
      · cases h

/-- **What is wrong with a value is told on one line.** -/
theorem oneLine_of_read {key : Key} {value : String} {problem : Problem}
    (h : read key value = .error problem) (hvalue : OneLine value) : OneLine problem.message := by
  cases key with
  | task =>
    obtain ⟨e, he, rfl⟩ := Except.mapError_eq_error (Except.map_eq_error h)
    exact TaskId.oneLine_of_parse he hvalue
  | label =>
    exact oneLine_of_readValue (Except.map_eq_error h)
      (fun _ hr => oneLine_of_readText hr (.of_chars (by decide))) hvalue
  | status =>
    exact oneLine_of_readValue (Except.map_eq_error h) (fun _ => oneLine_of_parse_status) hvalue
  | priority =>
    exact oneLine_of_readValue (Except.map_eq_error h)
      (fun _ => oneLine_of_parse_declared oneLine_of_parse_priority) hvalue
  | deadline =>
    exact oneLine_of_readValue (Except.map_eq_error h)
      (fun _ => oneLine_of_parse_declared oneLine_of_parse_date) hvalue
  | depends =>
    rcases Except.bind_eq_error h with h | ⟨list, hlist, h⟩
    · exact oneLine_of_readValue h
        (fun _ hr => oneLine_of_readText hr (.of_chars (by decide))) hvalue
    · rcases Except.bind_eq_error h with h | ⟨ids, -, h⟩
      · obtain ⟨e, he, rfl⟩ := Except.mapError_eq_error h
        obtain ⟨-, rfl⟩ := readText_eq_ok_iff.mp (readValue_eq_ok_iff.mp hlist)
        exact oneLine_of_readIds he hvalue
      · cases h
  | inclusion =>
    exact oneLine_of_readValue (Except.map_eq_error h)
      (fun _ hr => oneLine_of_readText hr (.of_chars (by decide))) hvalue

theorem value_of_read_inclusion {key : Key} {value path : String}
    (h : read key value = .ok (.inclusion path)) : path = value := by
  cases read_eq_ok_iff.mp h with
  | inclusion hne => rfl

end Field

/-! ## Documents -/

/-- The key and the value of a line are pieces of it. -/
theorem Entry.oneLine_ofLine (location : Location) {line : List Char} (h : '\n' ∉ trim line) :
    OneLine (ofLine location line).key ∧ OneLine (ofLine location line).value := by
  refine ⟨oneLine_ofList.mpr fun hmem => h ?_, (trimmed_value_ofLine location h).2⟩
  exact (List.takeWhile_prefix _).subset hmem

theorem readFields_oneLine (seen : List Key) {items : List Item}
    (h : ∀ item ∈ items, OneLine item.value) :
    (readFields seen items).Reports fun d => OneLine d.problem.message := by
  have hduplicate : OneLine "Duplicate property '" := .of_chars (by decide)
  have hrefused : OneLine "' not allowed in task block" := .of_chars (by decide)
  have hrepeat : ∀ key : Key,
      OneLine (Problem.malformed (.duplicateProperty key.text)).message := by
    intro key
    show OneLine ("Duplicate property '" ++ key.text ++ "' not allowed in task block")
    simp only [oneLine_append]
    exact ⟨⟨hduplicate, key.oneLine_text⟩, hrefused⟩
  exact readFields_reports_of seen (fun item _ => hrepeat item.key)
    fun item hitem problem hread => Field.oneLine_of_read hread (h item hitem)

theorem Section.read_oneLine (origin : String) {s : Section}
    (hfront : ∀ line ∈ s.front, '\n' ∉ trim line) :
    (s.read origin).Reports fun d => OneLine d.problem.message := by
  have hentries : ∀ e ∈ (readEntries origin (s.line + 1) s.front).value,
      OneLine e.key ∧ OneLine e.value := by
    intro e he
    obtain ⟨line, hline, location, rfl⟩ := mem_readEntries he
    exact Entry.oneLine_ofLine location (hfront line hline)
  have hmixed : OneLine (Problem.malformed .mixedBlock).message := .of_chars (by decide)
  have hmissing : OneLine (Problem.malformed .missingTask).message := .of_chars (by decide)
  have hblank : OneLine (Problem.ignored .blankLine).message := .of_chars (by decide)
  have hafter : OneLine (Problem.ignored .afterInclude).message := .of_chars (by decide)
  refine Section.read_reports_of (readEntries_reports_of fun _ _ => hblank) ?_ hafter
  refine readBlock_reports_of s.notesText (fun e he => ?_)
    (readItems_reports_of s.notesText hmixed hmissing
      (readFields_oneLine [] fun item hitem => ?_))
  · have hunknown : OneLine "Unknown property '" := .of_chars (by decide)
    have hquote : OneLine "'" := .of_chars (by decide)
    show OneLine ("Unknown property '" ++ e.key ++ "'")
    simp only [oneLine_append]
    exact ⟨⟨hunknown, (hentries e he).1⟩, hquote⟩
  · obtain ⟨e, he, hvalue, -⟩ := Entry.exists_of_item hitem
    exact hvalue ▸ (hentries e he).2

/-- The lines of a front matter have nothing but their ends in common with newlines. -/
theorem newline_not_mem_front {text : String} {s : Section}
    (hs : s ∈ (Layout.ofText text).sections) : ∀ line ∈ s.front, '\n' ∉ trim line := by
  have hdrawn : Layout.Drawn (lines text.toList) s := (Layout.drawn_of_mem 1 _).1 s hs
  exact fun line hline => (lined_lines _).newline_not_mem_trim line (hdrawn.front line hline)

/-- **What is wrong with a document is told on one line.** -/
theorem readDocument_oneLine (origin text : String) :
    (readDocument origin text).Reports fun d => OneLine d.problem.message := by
  intro d hd
  rw [log_readDocument, List.mem_append, List.mem_append] at hd
  rcases hd with (hd | hd) | hd
  · obtain ⟨n, -, rfl⟩ := List.mem_map.mp hd
    show OneLine (Problem.ignored .preamble).message
    exact .of_chars (by decide)
  · obtain ⟨s, hs, hd⟩ := List.mem_flatMap.mp hd
    exact Section.read_oneLine origin (newline_not_mem_front hs) d hd
  · obtain ⟨n, -, rfl⟩ := List.mem_map.mp hd
    show OneLine (Problem.malformed .unterminated).message
    exact .of_chars (by decide)

/-- **A path that is included stands on one line.** -/
theorem oneLine_of_inclusion {origin text path : String} {files : Inclusion}
    (hfiles : .inclusion files ∈ (readDocument origin text).value) (hpath : path ∈ files.paths) :
    OneLine path := by
  rw [value_readDocument] at hfiles
  obtain ⟨s, hs, hread⟩ := List.mem_filterMap.mp hfiles
  rw [Section.value_read] at hread
  rw [readBlock_eq_inclusion hread] at hpath
  obtain ⟨f, hf, hfield⟩ := List.mem_filterMap.mp hpath
  obtain ⟨item, hitem, hvalue⟩ := mem_readFields hf
  obtain ⟨e, he, hitem, -⟩ := Entry.exists_of_item hitem
  obtain ⟨line, hline, location, rfl⟩ := mem_readEntries he
  have honeLine := (Entry.oneLine_ofLine location (newline_not_mem_front hs line hline)).2
  cases f with
  | inclusion text =>
    cases hfield
    obtain rfl := Field.value_of_read_inclusion hvalue
    exact hitem ▸ honeLine
  | _ => cases hfield

end TaskOutline
