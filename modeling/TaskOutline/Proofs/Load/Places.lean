import TaskOutline.Proofs.Document.Places
import TaskOutline.Proofs.Inclusion.Steps
import TaskOutline.Proofs.Load.Problems
import TaskOutline.Proofs.Outline.DependencyCycles

/-! # Every report points at text that was read

A run reads the text of the source and those of the files that it goes into.  What it
asks for on the way is asked for by one of these texts (`Source.exists_reads`), so a
report of a visit stands where the visit was asked for, or in the text of the file.  The
reports that come after the expansion stand at records, and a record stands at the
opening fence of a block of the text that declares it (`Source.isFencePlace_of_mem_records`).
-/
namespace TaskOutline.Source

/-- A step of the expansion of a source, with the places of the files that are being
expanded when it comes up. -/
def Takes (source : Source) (w : Workspace) : (inner : List Place) → (step : Step) → Prop :=
  w.Takes (source.includeDir w.workingDir) (source.path.map w.identity).toList
    ((readDocument source.origin source.text).value.flatMap Block.steps)

/-- The texts that a run reads, each under the name that its locations have: that of the
source, and of every file that an include block of such a text leads to, if the file is
not being expanded and can be read. -/
inductive Reads (source : Source) (w : Workspace) : (origin text : String) → Prop where
  | document : Reads source w source.origin source.text
  | file {inner : List Place} {path : Path} {location : Location} {text : String} :
      source.Takes w inner (.visit path location) →
      w.identity ((source.includeDir w.workingDir).join path) ∉ inner →
      w.read ((source.includeDir w.workingDir).join path) = .ok text →
      Reads source w ((source.includeDir w.workingDir).join path).text text

/-- A line of a text that is read. -/
def IsPlace (source : Source) (w : Workspace) (l : Location) : Prop :=
  ∃ text, source.Reads w l.origin text ∧ l.LiesIn text

/-- A fence of a text that is read. -/
def IsFencePlace (source : Source) (w : Workspace) (l : Location) : Prop :=
  ∃ text, source.Reads w l.origin text ∧ l.IsFenceOf text

variable {source : Source} {w : Workspace}

theorem IsFencePlace.isPlace {l : Location} (h : source.IsFencePlace w l) : source.IsPlace w l := by
  obtain ⟨text, hreads, hfence⟩ := h
  exact ⟨text, hreads, hfence.liesIn⟩

/-! ## What is asked for -/

/-- Where the steps are those of a text that is read, and all that they lead to is taken
by the source, each step that they lead to is asked for by a text that is read. -/
theorem exists_reads_of_takes {way inner : List Place} {steps : List Step} {step : Step}
    (h : w.Takes (source.includeDir w.workingDir) way steps inner step)
    (hup : ∀ inner step, w.Takes (source.includeDir w.workingDir) way steps inner step →
      source.Takes w inner step)
    (hsteps : ∃ origin text, source.Reads w origin text ∧
      steps = (readDocument origin text).value.flatMap Block.steps) :
    ∃ origin text, source.Reads w origin text ∧
      step ∈ (readDocument origin text).value.flatMap Block.steps := by
  induction h with
  | here hmem =>
    obtain ⟨origin, text, hreads, rfl⟩ := hsteps
    exact ⟨origin, text, hreads, hmem⟩
  | inside hvisit hnew hread _ ih =>
    refine ih (fun inner step hin => hup inner step (.inside hvisit hnew hread hin)) ⟨_, _, ?_, rfl⟩
    exact .file (hup _ _ (.here hvisit)) hnew hread

/-- **A step is asked for by a text that is read.** -/
theorem exists_reads {inner : List Place} {step : Step} (h : source.Takes w inner step) :
    ∃ origin text, source.Reads w origin text ∧
      step ∈ (readDocument origin text).value.flatMap Block.steps :=
  exists_reads_of_takes h (fun _ _ hin => hin) ⟨_, _, .document, rfl⟩

theorem isFencePlace_of_takes {inner : List Place} {step : Step} (h : source.Takes w inner step) :
    source.IsFencePlace w step.location := by
  obtain ⟨origin, text, hreads, hstep⟩ := exists_reads h
  obtain ⟨rfl, hfence⟩ := readDocument_isFenceOf hstep
  exact ⟨text, hreads, hfence⟩

theorem mem_records_iff {r : Record} :
    r ∈ (source.records w).value ↔ ∃ inner, source.Takes w inner (.task r) :=
  Workspace.mem_value_follow _ _

theorem isFencePlace_of_mem_records {r : Record} (h : r ∈ (source.records w).value) :
    source.IsFencePlace w r.location := by
  obtain ⟨inner, htakes⟩ := mem_records_iff.mp h
  exact isFencePlace_of_takes htakes

/-! ## What is reported -/

/-- The diagnostic stands on a line of a text that is read, and so does the record that
it takes for the first of an identifier. -/
def Points (source : Source) (w : Workspace) (d : Diagnostic) : Prop :=
  (∃ l, d.location = some l ∧ source.IsPlace w l) ∧
    ∀ id first, d.problem = .duplicateIdentifier id first →
      ∃ l, first = some l ∧ source.IsPlace w l

theorem points_of_not_isRepeat {d : Diagnostic} {l : Location} (hl : d.location = some l)
    (hplace : source.IsPlace w l) (hrepeat : d.problem.isRepeat = false) : source.Points w d := by
  refine ⟨⟨l, hl, hplace⟩, fun id first hp => ?_⟩
  rw [hp] at hrepeat
  cases hrepeat

theorem isPlace_of_readDocument {origin text : String} (hreads : source.Reads w origin text)
    {d : Diagnostic} (hd : d ∈ (readDocument origin text).log) :
    ∃ l, d.location = some l ∧ source.IsPlace w l := by
  obtain ⟨l, hl, rfl, hlies⟩ := readDocument_liesIn origin text d hd
  exact ⟨l, hl, text, hreads, hlies⟩

theorem isPlace_of_visitLog {inner : List Place} {path : Path} {location : Location}
    (htakes : source.Takes w inner (.visit path location)) {d : Diagnostic}
    (hd : d ∈ w.visitLog (source.includeDir w.workingDir) inner path location) :
    ∃ l, d.location = some l ∧ source.IsPlace w l := by
  have hlocation : source.IsPlace w location := (isFencePlace_of_takes htakes).isPlace
  by_cases hway : w.identity ((source.includeDir w.workingDir).join path) ∈ inner
  · rw [Workspace.visitLog_of_mem location hway] at hd
    obtain rfl := List.mem_singleton.mp hd
    exact ⟨location, rfl, hlocation⟩
  · cases hread : w.read ((source.includeDir w.workingDir).join path) with
    | error reason =>
      rw [Workspace.visitLog_of_error location hway hread] at hd
      obtain rfl := List.mem_singleton.mp hd
      exact ⟨location, rfl, hlocation⟩
    | ok text =>
      rw [Workspace.visitLog_of_ok location hway hread] at hd
      exact isPlace_of_readDocument (.file htakes hway hread) hd

theorem log_records (source : Source) (w : Workspace) :
    (source.records w).log = (readDocument source.origin source.text).log ++
      (w.follow (source.includeDir w.workingDir) (source.path.map w.identity).toList
        ((readDocument source.origin source.text).value.flatMap Block.steps)).log := rfl

/-- What is reported while the records are got together. -/
theorem points_of_mem_log_records {d : Diagnostic} (hd : d ∈ (source.records w).log) :
    source.Points w d := by
  have hplace : ∃ l, d.location = some l ∧ source.IsPlace w l := by
    rw [log_records] at hd
    rcases List.mem_append.mp hd with hd | hd
    · exact isPlace_of_readDocument .document hd
    · obtain ⟨inner, path, location, htakes, hvisit⟩ := (Workspace.mem_log_follow _ _).mp hd
      exact isPlace_of_visitLog htakes hvisit
  obtain ⟨l, hl, hplace⟩ := hplace
  exact points_of_not_isRepeat hl hplace
    (Problem.of_early_stage (source.records_reports w d hd)).1

/-- A repeated identifier is reported at one record, with the place of another. -/
theorem points_of_mem_repeatReports {d : Diagnostic}
    (hd : d ∈ Roster.repeatReports (source.records w).value) : source.Points w d := by
  obtain ⟨⟨record, i⟩, hmem, hd⟩ := List.mem_flatMap.mp hd
  replace hd : d ∈ Roster.repeatReport ((source.records w).value.take i) record := hd
  have hrecord : record ∈ (source.records w).value := List.fst_mem_of_mem_zipIdx hmem
  unfold Roster.repeatReport at hd
  split at hd
  · rename_i earlier hfind
    obtain rfl := List.mem_singleton.mp hd
    have hearlier : earlier ∈ (source.records w).value :=
      List.mem_of_mem_take (List.mem_of_find?_eq_some hfind)
    refine ⟨⟨_, rfl, (isFencePlace_of_mem_records hrecord).isPlace⟩, fun id first hp => ?_⟩
    cases hp
    exact ⟨_, rfl, (isFencePlace_of_mem_records hearlier).isPlace⟩
  · cases hd

/-- A reference that leads nowhere is reported at the record that has it. -/
theorem points_of_danglingPairs {pair : TaskId × TaskId}
    (h : pair ∈ Dependencies.danglingPairs (Outline.ofRecords (source.records w).value)) :
    source.Points w (Dependencies.danglingReport (source.records w).value pair) := by
  obtain ⟨⟨r, hr, -⟩, -⟩ := Dependencies.mem_danglingPairs.mp h
  have hplace := isFencePlace_of_mem_records (List.mem_of_find?_eq_some hr)
  exact points_of_not_isRepeat (by rw [Dependencies.danglingReport, hr]; rfl) hplace.isPlace rfl

/-- A cycle is reported at the record of its first task. -/
theorem points_of_mem_cycleWarnings {d : Diagnostic}
    (hd : d ∈ Dependencies.cycleWarnings (Outline.ofRecords (source.records w).value)) :
    source.Points w d := by
  obtain ⟨cycle, hcycle, rfl⟩ := List.mem_map.mp hd
  obtain ⟨n, hn, r, hr, -, hwarning⟩ := Dependencies.cycleWarning_eq hcycle
  have hentry : (n.id, some r) ∈ (Outline.ofRecords (source.records w).value).entries :=
    List.mem_map.mpr ⟨n, hn, by rw [hr]⟩
  have hrecord : r ∈ (source.records w).value :=
    List.mem_of_find?_eq_some (Outline.mem_entries_ofRecords.mp hentry)
  rw [hwarning]
  exact points_of_not_isRepeat rfl (isFencePlace_of_mem_records hrecord).isPlace rfl

/-! ## A whole run -/

/-- A text that is read is read by the run: its reports are among those of the run, and
its tasks among the records. -/
theorem Reads.mem {origin text : String} (h : source.Reads w origin text) :
    (∀ d ∈ (readDocument origin text).log, d ∈ (source.records w).log) ∧
      ∀ r, .task r ∈ (readDocument origin text).value → r ∈ (source.records w).value := by
  cases h with
  | document =>
    refine ⟨fun d hd => ?_, fun r hr => mem_records_iff.mpr ⟨_, .here ?_⟩⟩
    · rw [log_records]
      exact List.mem_append_left _ hd
    · exact List.mem_flatMap.mpr ⟨_, hr, List.mem_singleton_self _⟩
  | file htakes hway hread =>
    refine ⟨fun d hd => ?_, fun r hr => mem_records_iff.mpr ⟨_, htakes.extend hway hread ?_⟩⟩
    · rw [log_records]
      refine List.mem_append_right _ ((Workspace.mem_log_follow _ _).mpr ⟨_, _, _, htakes, ?_⟩)
      rwa [Workspace.visitLog_of_ok _ hway hread]
    · exact List.mem_flatMap.mpr ⟨_, hr, List.mem_singleton_self _⟩

theorem mem_load_of_mem_records {d : Diagnostic} (h : d ∈ (source.records w).log) :
    d ∈ (source.load w []).2 := by
  rcases source.load_cases w [] with ⟨-, hload⟩ | ⟨-, -, hload⟩ | ⟨-, -, hload⟩
  · rw [hload]
    simp [h]
  · rw [hload]
    simp [h]
  · rw [hload, completeLog_eq]
    simp [h]

/-- Whatever way a run goes, its reports are those of its four stages, or that there are
no tasks. -/
theorem mem_load_cases {d : Diagnostic} (h : d ∈ (source.load w []).2) :
    d ∈ (source.records w).log ∨ d ∈ Roster.repeatReports (source.records w).value ∨
      (∃ pair ∈ Dependencies.danglingPairs (Outline.ofRecords (source.records w).value),
        d = Dependencies.danglingReport (source.records w).value pair) ∨
      d ∈ Dependencies.cycleWarnings (Outline.ofRecords (source.records w).value) ∨
      d = source.emptyReport := by
  rcases source.load_cases w [] with ⟨-, hload⟩ | ⟨-, -, hload⟩ | ⟨-, -, hload⟩
  · rw [hload, List.nil_append] at h
    rcases List.mem_append.mp h with h | h
    · exact .inl h
    · exact .inr (.inl h)
  · rw [hload, List.nil_append] at h
    rcases List.mem_append.mp h with h | h
    · exact .inl h
    · exact .inr (.inr (.inr (.inr (List.mem_singleton.mp h))))
  · rw [hload, completeLog_eq] at h
    simp only [List.mem_append, List.mem_map] at h
    rcases h with ((h | h) | ⟨pair, hpair, rfl⟩) | h
    · exact .inl h
    · exact .inr (.inl h)
    · exact .inr (.inr (.inl ⟨pair, hpair, rfl⟩))
    · exact .inr (.inr (.inr (.inl h)))

/-- **Every report points at text that was read.**  Of all that a run reports, only that
there are no tasks has no place.  Every other report stands on a line of a text that the
run reads under the name in the location, missing dependencies and dependency cycles
included, and so does the first record of an identifier that is declared twice.  Every
record stands on a fence of such a text.  The texts that are read are that of the source
and those of files that can be read; what is reported of such a text is reported by the
run, and what it declares is among the records. -/
theorem load_points (source : Source) (w : Workspace) :
    (∀ d ∈ (source.load w []).2, d.problem ≠ .malformed (.noTasks source.origin) →
      ∃ l, d.location = some l ∧
        ∃ text, source.Reads w l.origin text ∧ 1 ≤ l.line ∧
          l.line ≤ (Text.lines text.toList).length) ∧
    (∀ d ∈ (source.load w []).2, ∀ id first, d.problem = .duplicateIdentifier id first →
      ∃ l, first = some l ∧
        ∃ text, source.Reads w l.origin text ∧ 1 ≤ l.line ∧
          l.line ≤ (Text.lines text.toList).length) ∧
    (∀ r ∈ (source.records w).value,
      ∃ text, source.Reads w r.location.origin text ∧ 1 ≤ r.location.line ∧
        ∃ line, (Text.lines text.toList)[r.location.line - 1]? = some line ∧
          Text.trim line = ['-', '-', '-']) ∧
    ∀ origin text, source.Reads w origin text →
      (∀ d ∈ (readDocument origin text).log, d ∈ (source.load w []).2) ∧
        ∀ r, .task r ∈ (readDocument origin text).value → r ∈ (source.records w).value := by
  have hpoints : ∀ d ∈ (source.load w []).2, d = source.emptyReport ∨ source.Points w d := by
    intro d hd
    rcases mem_load_cases hd with hd | hd | ⟨pair, hpair, rfl⟩ | hd | hd
    · exact .inr (points_of_mem_log_records hd)
    · exact .inr (points_of_mem_repeatReports hd)
    · exact .inr (points_of_danglingPairs hpair)
    · exact .inr (points_of_mem_cycleWarnings hd)
    · exact .inl hd
  refine ⟨?_, ?_, fun r hr => isFencePlace_of_mem_records hr, ?_⟩
  · intro d hd hne
    rcases hpoints d hd with rfl | h
    · exact absurd rfl hne
    · exact h.1
  · intro d hd id first hp
    rcases hpoints d hd with rfl | h
    · cases hp
    · exact h.2 id first hp
  · intro origin text hreads
    exact ⟨fun d hd => mem_load_of_mem_records (hreads.mem.1 d hd), hreads.mem.2⟩

end TaskOutline.Source
