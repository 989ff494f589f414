import TaskOutline.Proofs.Document.OneLine
import TaskOutline.Proofs.Inclusion.Cycles
import TaskOutline.Proofs.Load.Places

/-! # The reports of a run on one line

A run takes texts from elsewhere into its reports: the name of its source, the directory
of included files, and what is said of a file that cannot be read.  Where these are on one
line (`Source.OnOneLine`), so is each report as it is written (`Source.OnOneLine.text`).
-/
namespace TaskOutline.Source

/-- What a run takes from elsewhere into its reports is on one line. -/
structure OnOneLine (source : Source) (w : Workspace) : Prop where
  origin : OneLine source.origin
  dir : OneLine (source.includeDir w.workingDir).text
  reason : ∀ {path : Path} {reason : String}, w.read path = .error reason → OneLine reason

variable {source : Source} {w : Workspace}

namespace OnOneLine

/-- A file that is included is named on one line. -/
theorem target (h : source.OnOneLine w) {inner : List Place} {path : Path} {location : Location}
    (htakes : source.Takes w inner (.visit path location)) :
    OneLine ((source.includeDir w.workingDir).join path).text := by
  obtain ⟨origin, text, -, hstep⟩ := exists_reads htakes
  obtain ⟨files, hfiles, hpath, -⟩ := Block.visit_mem_steps.mp hstep
  exact Path.oneLine_join h.dir (oneLine_of_inclusion hfiles hpath)

/-- A text that is read has its name on one line. -/
theorem name (h : source.OnOneLine w) {origin text : String}
    (hreads : source.Reads w origin text) : OneLine origin := by
  cases hreads with
  | document => exact h.origin
  | file htakes _ _ => exact h.target htakes

theorem place (h : source.OnOneLine w) {l : Location} (hl : source.IsPlace w l) :
    OneLine l.origin := by
  obtain ⟨text, hreads, -⟩ := hl
  exact h.name hreads

theorem text_of_points (h : source.OnOneLine w) {d : Diagnostic} (hpoints : source.Points w d)
    (hmessage : OneLine d.problem.message) : OneLine d.text := by
  obtain ⟨⟨l, hl, hplace⟩, -⟩ := hpoints
  refine Diagnostic.oneLine_text (fun l' hl' => ?_) hmessage
  obtain rfl : l = l' := Option.some.inj (hl.symm.trans hl')
  exact h.place hplace

/-! ## Wordings -/

theorem message_of_visitLog (h : source.OnOneLine w) {inner : List Place} {path : Path}
    {location : Location} (htakes : source.Takes w inner (.visit path location)) {d : Diagnostic}
    (hd : d ∈ w.visitLog (source.includeDir w.workingDir) inner path location) :
    OneLine d.problem.message := by
  have htarget := h.target htakes
  by_cases hway : w.identity ((source.includeDir w.workingDir).join path) ∈ inner
  · rw [Workspace.visitLog_of_mem location hway] at hd
    obtain rfl := List.mem_singleton.mp hd
    have hcycle : OneLine "Include cycle: " := .of_chars (by decide)
    have hexpanded : OneLine " is already being expanded" := .of_chars (by decide)
    exact oneLine_append.mpr ⟨oneLine_append.mpr ⟨hcycle, htarget⟩, hexpanded⟩
  · cases hread : w.read ((source.includeDir w.workingDir).join path) with
    | error reason =>
      rw [Workspace.visitLog_of_error location hway hread] at hd
      obtain rfl := List.mem_singleton.mp hd
      have hcannot : OneLine "Cannot include " := .of_chars (by decide)
      have hcolon : OneLine ": " := .of_chars (by decide)
      show OneLine ("Cannot include " ++ (Path.join _ path).text ++ ": " ++ reason)
      simp only [oneLine_append]
      exact ⟨⟨⟨hcannot, htarget⟩, hcolon⟩, h.reason hread⟩
    | ok text =>
      rw [Workspace.visitLog_of_ok location hway hread] at hd
      exact readDocument_oneLine _ text d hd

theorem message_of_records (h : source.OnOneLine w) {d : Diagnostic}
    (hd : d ∈ (source.records w).log) : OneLine d.problem.message := by
  rw [log_records] at hd
  rcases List.mem_append.mp hd with hd | hd
  · exact readDocument_oneLine _ _ d hd
  · obtain ⟨inner, path, location, htakes, hvisit⟩ := (Workspace.mem_log_follow _ _).mp hd
    exact h.message_of_visitLog htakes hvisit

/-- A repeated identifier is reported with the place of its first record. -/
theorem message_of_repeat (h : source.OnOneLine w) {d : Diagnostic} (hpoints : source.Points w d)
    (hrepeat : d.problem.isRepeat = true) : OneLine d.problem.message := by
  obtain ⟨-, hfirst⟩ := hpoints
  cases hp : d.problem with
  | duplicateIdentifier id first =>
    obtain ⟨l, rfl, hplace⟩ := hfirst id first hp
    have hduplicate : OneLine "Duplicate task identifier " := .of_chars (by decide)
    have hdeclared : OneLine " (first declared at " := .of_chars (by decide)
    have hcolon : OneLine ":" := .of_chars (by decide)
    have hclose : OneLine ")" := .of_chars (by decide)
    show OneLine ("Duplicate task identifier " ++ id.text ++
      (" (first declared at " ++ (l.origin ++ ":" ++ natText l.line) ++ ")"))
    simp only [oneLine_append]
    exact ⟨⟨hduplicate, id.oneLine_text⟩, ⟨⟨hdeclared, ⟨h.place hplace, hcolon⟩,
      oneLine_natText l.line⟩, hclose⟩⟩
  | _ =>
    rw [hp] at hrepeat
    cases hrepeat

end OnOneLine

theorem message_of_dangling (records : List Record) (pair : TaskId × TaskId) :
    OneLine (Dependencies.danglingReport records pair).problem.message := by
  have htask : OneLine "Task " := .of_chars (by decide)
  have hdepends : OneLine " depends on " := .of_chars (by decide)
  have hmissing : OneLine ", which does not exist" := .of_chars (by decide)
  show OneLine ("Task " ++ pair.1.text ++ " depends on " ++ pair.2.text ++ ", which does not exist")
  simp only [oneLine_append]
  exact ⟨⟨⟨⟨htask, pair.1.oneLine_text⟩, hdepends⟩, pair.2.oneLine_text⟩, hmissing⟩

theorem message_of_cycle (cycle : List TaskId) :
    OneLine (Problem.dependencyCycle cycle).message := by
  have hcycle : OneLine "Dependency cycle: " := .of_chars (by decide)
  have harrow : OneLine " -> " := .of_chars (by decide)
  refine oneLine_append.mpr ⟨hcycle, .intercalate harrow fun text htext => ?_⟩
  obtain ⟨id, -, rfl⟩ := List.mem_map.mp htext
  exact id.oneLine_text

/-- **Each report of a run is one line.** -/
theorem OnOneLine.text (h : source.OnOneLine w) {d : Diagnostic}
    (hd : d ∈ (source.load w []).2) : OneLine d.text := by
  rcases mem_load_cases hd with hd | hd | ⟨pair, hpair, rfl⟩ | hd | rfl
  · exact h.text_of_points (points_of_mem_log_records hd) (h.message_of_records hd)
  · have hpoints := points_of_mem_repeatReports hd
    exact h.text_of_points hpoints
      (h.message_of_repeat hpoints (Roster.repeatReports_isError hd).2)
  · exact h.text_of_points (points_of_danglingPairs hpair) (message_of_dangling _ pair)
  · obtain ⟨-, cycle, hcycle⟩ := Dependencies.mem_cycleWarnings hd
    exact h.text_of_points (points_of_mem_cycleWarnings hd) (hcycle ▸ message_of_cycle cycle)
  · refine Diagnostic.oneLine_text (fun l hl => by cases hl) ?_
    show OneLine (source.origin ++ " contains no tasks")
    rw [oneLine_append]
    exact ⟨h.origin, .of_chars (by decide)⟩

end TaskOutline.Source
