import TaskOutline.Proofs.Document.Stage
import TaskOutline.Proofs.Inclusion.Steps
import TaskOutline.Proofs.Load.Success
import TaskOutline.Proofs.Outline.DependencyCycles

/-! # Every problem once, and no false ones

What a run reports, put together from what its stages report.  The records of the
source are got together first; a repeated identifier is reported in any case.  After
an error the outline may lack tasks, so nothing is said about dependencies; without
one, every reference that leads nowhere is reported, in order, and the dependency
cycles after them.  Which references lead nowhere and which tasks are on a cycle is told
by the records alone.

The reports of one stage are picked out of those of a run by the stage that their
problems belong to (`Problem.stage`).
-/
namespace TaskOutline

/-- The problem is an identifier that was declared before. -/
def Problem.isRepeat : Problem → Bool
  | .duplicateIdentifier _ _ => true
  | _ => false

/-- The problem is found when dependencies are checked. -/
def Problem.isAboutDependencies : Problem → Bool
  | .missingDependency _ _ | .dependencyCycle _ => true
  | _ => false

/-! ## What each stage reports -/

theorem Roster.repeatReports_isError {records : List Record} {d : Diagnostic}
    (h : d ∈ repeatReports records) : d.isError = true ∧ d.problem.isRepeat = true := by
  obtain ⟨⟨record, i⟩, -, hd⟩ := List.mem_flatMap.mp h
  replace hd : d ∈ repeatReport (records.take i) record := hd
  unfold repeatReport at hd
  split at hd
  · obtain rfl := List.mem_singleton.mp hd
    exact ⟨rfl, rfl⟩
  · cases hd

theorem Problem.of_early_stage {p : Problem} (h : p.stage = .reading ∨ p.stage = .inclusion) :
    p.isRepeat = false ∧ p.isAboutDependencies = false := by
  cases p <;> first | exact ⟨rfl, rfl⟩ | simp [stage] at h

namespace Dependencies

/-- The warnings about the dependency cycles of an outline. -/
def cycleWarnings (t : Outline) : List Diagnostic :=
  (ofOutline t).value.cycles.map (cycleWarning t)

theorem log_check (t : Outline) : (check t).log = (ofOutline t).log ++ cycleWarnings t := rfl

theorem value_check (t : Outline) : (check t).value = (ofOutline t).value := rfl

theorem mem_cycleWarnings {t : Outline} {d : Diagnostic} (h : d ∈ cycleWarnings t) :
    d.severity = .warning ∧ ∃ cycle, d.problem = .dependencyCycle cycle := by
  obtain ⟨cycle, -, rfl⟩ := List.mem_map.mp h
  exact ⟨rfl, cycle, rfl⟩

theorem hasErrors_cycleWarnings (t : Outline) : hasErrors (cycleWarnings t) = false := by
  rw [hasErrors_eq_false_iff]
  intro d hd
  rw [Diagnostic.isError, (mem_cycleWarnings hd).1]
  rfl

/-- Where no task depends on another there is nothing to warn about. -/
theorem cycleWarnings_eq_nil {t : Outline} (h : ∀ n ∈ t.nodes, n.depends = []) :
    cycleWarnings t = [] := by
  have hcycles : (ofOutline t).value.cycles = [] := by
    refine List.eq_nil_iff_forall_not_mem.mpr fun c hc => ?_
    obtain ⟨id, hself, -⟩ := mem_cycles_iff.mp hc
    obtain ⟨b, ⟨n, hn, -, -, -, -, hb⟩, -⟩ := Relation.TransGen.head'_iff.mp hself.1
    rw [h n hn] at hb
    cases hb
  rw [cycleWarnings, hcycles, List.map_nil]

/-- A cycle is warned about exactly if it is one. -/
theorem exists_mem_cycleWarnings {t : Outline} {cycle : List TaskId} :
    (∃ d ∈ cycleWarnings t, d.problem = .dependencyCycle cycle) ↔
      cycle ∈ (ofOutline t).value.cycles := by
  constructor
  · rintro ⟨d, hd, hproblem⟩
    obtain ⟨c, hc, rfl⟩ := List.mem_map.mp hd
    obtain rfl : c = cycle := Problem.dependencyCycle.inj hproblem
    exact hc
  · intro hcycle
    exact ⟨_, List.mem_map_of_mem hcycle, rfl⟩

end Dependencies

/-- The first record of one identifier names another, and there is a task of that identifier:
one of the records has it, or begins with it. -/
def Requires (records : List Record) (a b : TaskId) : Prop :=
  (∃ r, records.find? (fun r => r.id = a) = some r ∧ b ∈ r.depends) ∧
    ∃ r ∈ records, b.segments <+: r.id.segments

/-- What the tasks of an outline depend on is what its records say. -/
theorem Outline.dependsOn_ofRecords {records : List Record} {a b : TaskId} :
    (ofRecords records).DependsOn a b ↔ Requires records a b := by
  have hnode : (∃ m ∈ (ofRecords records).nodes, m.id = b) ↔
      ∃ r ∈ records, b.segments <+: r.id.segments := by
    rw [← Dependencies.contains_iff_mem, contains_ofRecords]
  rw [Requires, ← hnode, ← Dependencies.exists_node_ofRecords]
  constructor
  · rintro ⟨n, hn, m, hm, hid, hmid, hd⟩
    exact ⟨⟨n, hn, hid, hd⟩, m, hm, hmid⟩
  · rintro ⟨⟨n, hn, hid, hd⟩, m, hm, hmid⟩
    exact ⟨n, hn, m, hm, hid, hmid, hd⟩

/-! ## The errors of a run -/

namespace Source

variable {source : Source} {w : Workspace}

/-- The errors that are reported while the records of a source are got together. -/
def earlyErrors (source : Source) (w : Workspace) : List Diagnostic :=
  (source.records w).log.filter Diagnostic.isError

theorem earlyErrors_eq_nil_iff :
    source.earlyErrors w = [] ↔ hasErrors (source.records w).log = false := by
  simp [earlyErrors, hasErrors]

theorem filter_isRepeat_early :
    (source.records w).log.filter (fun d => d.problem.isRepeat) = [] := by
  refine List.filter_eq_nil_iff.mpr fun d hd => ?_
  simp [(Problem.of_early_stage (source.records_reports w d hd)).1]

theorem filter_isError_repeats (records : List Record) :
    (Roster.repeatReports records).filter Diagnostic.isError = Roster.repeatReports records :=
  List.filter_eq_self.mpr fun _ hd => (Roster.repeatReports_isError hd).1

theorem filter_isRepeat_repeats (records : List Record) :
    (Roster.repeatReports records).filter (fun d => d.problem.isRepeat) =
      Roster.repeatReports records :=
  List.filter_eq_self.mpr fun _ hd => (Roster.repeatReports_isError hd).2

/-- The four parts of the reports of a complete run. -/
theorem completeLog_eq (source : Source) (w : Workspace) :
    source.completeLog w [] =
      (source.records w).log ++ Roster.repeatReports (source.records w).value ++
        (Dependencies.danglingPairs (Outline.ofRecords (source.records w).value)).map
          (Dependencies.danglingReport (source.records w).value) ++
        Dependencies.cycleWarnings (Outline.ofRecords (source.records w).value) := by
  rw [completeLog, Dependencies.log_check, Dependencies.log_ofOutline, List.nil_append,
    List.append_assoc _ (List.map _ _)]

/-- The reports on checking say nothing about repeated identifiers. -/
theorem filter_isRepeat_checks (records : List Record) (pairs : List (TaskId × TaskId))
    (t : Outline) :
    (pairs.map (Dependencies.danglingReport records) ++ Dependencies.cycleWarnings t).filter
      (fun d => d.problem.isRepeat) = [] := by
  refine List.filter_eq_nil_iff.mpr fun d hd => ?_
  rcases List.mem_append.mp hd with hd | hd
  · obtain ⟨pair, -, rfl⟩ := List.mem_map.mp hd
    simp [Dependencies.danglingReport, Problem.isRepeat]
  · obtain ⟨-, cycle, hc⟩ := Dependencies.mem_cycleWarnings hd
    simp [hc, Problem.isRepeat]

theorem filter_isError_checks (records : List Record) (pairs : List (TaskId × TaskId))
    (t : Outline) :
    (pairs.map (Dependencies.danglingReport records) ++ Dependencies.cycleWarnings t).filter
      Diagnostic.isError = pairs.map (Dependencies.danglingReport records) := by
  have hpairs : (pairs.map (Dependencies.danglingReport records)).filter Diagnostic.isError =
      pairs.map (Dependencies.danglingReport records) := by
    refine List.filter_eq_self.mpr fun d hd => ?_
    obtain ⟨pair, -, rfl⟩ := List.mem_map.mp hd
    rfl
  have hcycles : (Dependencies.cycleWarnings t).filter Diagnostic.isError = [] := by
    refine List.filter_eq_nil_iff.mpr fun d hd => ?_
    simp [Diagnostic.isError, (Dependencies.mem_cycleWarnings hd).1]
  rw [List.filter_append, hpairs, hcycles, List.append_nil]

/-- Each repeated identifier is reported once, whichever way loading goes out. -/
theorem filter_isRepeat_load (source : Source) (w : Workspace) :
    (source.load w []).2.filter (fun d => d.problem.isRepeat) =
      Roster.repeatReports (source.records w).value := by
  rcases source.load_cases w [] with ⟨-, hload⟩ | ⟨-, hr, hload⟩ | ⟨-, -, hload⟩
  · rw [hload, List.nil_append, List.filter_append, filter_isRepeat_early,
      filter_isRepeat_repeats, List.nil_append]
  · rw [hload, List.nil_append, List.filter_append, filter_isRepeat_early, hr]
    rfl
  · rw [hload, completeLog_eq, List.append_assoc, List.filter_append, filter_isRepeat_checks,
      List.filter_append, filter_isRepeat_early, filter_isRepeat_repeats, List.nil_append,
      List.append_nil]

/-- Of the reports before the checks none is about dependencies. -/
theorem not_isAboutDependencies {d : Diagnostic}
    (h : d ∈ (source.records w).log ++ Roster.repeatReports (source.records w).value) :
    d.problem.isAboutDependencies = false := by
  rcases List.mem_append.mp h with h | h
  · exact (Problem.of_early_stage (source.records_reports w d h)).2
  · have hrepeat := (Roster.repeatReports_isError h).2
    cases hp : d.problem with
    | duplicateIdentifier id first => rfl
    | _ => simp [hp, Problem.isRepeat] at hrepeat

/-! ## The three kinds of runs -/

theorem log_load_of_early (h : source.earlyErrors w ≠ []) :
    (source.load w []).2 =
      (source.records w).log ++ Roster.repeatReports (source.records w).value := by
  have herrors : hasErrors ([] ++ (source.records w).log) = true := by
    rw [← Bool.not_eq_false]
    exact fun hf => h (earlyErrors_eq_nil_iff.mpr hf)
  rw [load_of_errors herrors, List.nil_append]

theorem log_load_of_none (h : source.earlyErrors w = []) (hr : (source.records w).value = []) :
    (source.load w []).2 = (source.records w).log ++ [source.emptyReport] := by
  have hearly : hasErrors ([] ++ (source.records w).log) = false := earlyErrors_eq_nil_iff.mp h
  rw [load_of_empty hearly hr, List.nil_append]

theorem log_load_of_some (h : source.earlyErrors w = []) (hr : (source.records w).value ≠ []) :
    (source.load w []).2 = source.completeLog w [] := by
  have hearly : hasErrors ([] ++ (source.records w).log) = false := earlyErrors_eq_nil_iff.mp h
  rw [load_of_complete hearly hr]

/-- The errors before the checks. -/
theorem filter_isError_early :
    ((source.records w).log ++ Roster.repeatReports (source.records w).value).filter
      Diagnostic.isError = source.earlyErrors w ++ Roster.repeatReports (source.records w).value := by
  rw [List.filter_append, filter_isError_repeats]
  rfl

theorem filter_isError_completeLog :
    (source.completeLog w []).filter Diagnostic.isError =
      source.earlyErrors w ++ Roster.repeatReports (source.records w).value ++
        (Dependencies.danglingPairs (Outline.ofRecords (source.records w).value)).map
          (Dependencies.danglingReport (source.records w).value) := by
  rw [completeLog_eq, List.append_assoc, List.filter_append, filter_isError_checks,
    filter_isError_early]

/-- The records of a source that includes nothing are those that it declares. -/
theorem records_of_tasks {records : List Record}
    (hread : readDocument source.origin source.text = ⟨records.map .task, []⟩) :
    source.records w = ⟨records, []⟩ := by
  unfold Source.records
  rw [hread, Logged.silent_bind, Workspace.expand_tasks]

/-- **A source that includes nothing loads** as the outline of its records, with no more than
warnings about cycles, when it has records that repeat no identifier and leave no reference
dangling. -/
theorem load_of_tasks {records : List Record}
    (hread : readDocument source.origin source.text = ⟨records.map .task, []⟩)
    (hne : records ≠ []) (hrepeat : Roster.repeatReports records = [])
    (hdangling : Dependencies.danglingPairs (Outline.ofRecords records) = []) :
    let t := Outline.ofRecords records
    source.load w [] =
      (some ⟨t, (Dependencies.ofOutline t).value⟩, Dependencies.cycleWarnings t) := by
  intro t
  have hrecords : source.records w = ⟨records, []⟩ := records_of_tasks hread
  have hlog : source.completeLog w [] = Dependencies.cycleWarnings t := by
    rw [completeLog_eq, hrecords, hrepeat, hdangling]
    rfl
  rw [load_of_complete (by rw [hrecords]; rfl) (by rwa [hrecords]), hlog,
    Dependencies.hasErrors_cycleWarnings, if_neg Bool.false_ne_true, completeDocument, hrecords,
    Dependencies.value_check]

/-- On a cycle that is warned about are the tasks that depend on one another. -/
theorem exists_cycle_completeLog {a b : TaskId} :
    (∃ d ∈ source.completeLog w [], ∃ cycle, d.problem = .dependencyCycle cycle ∧
      a ∈ cycle ∧ b ∈ cycle) ↔
        Relation.TransGen (Requires (source.records w).value) a b ∧
          Relation.TransGen (Requires (source.records w).value) b a := by
  have hsteps : (Outline.ofRecords (source.records w).value).DependsOn =
      Requires (source.records w).value :=
    funext fun _ => funext fun _ => propext Outline.dependsOn_ofRecords
  -- only the last of the four parts has reports about cycles
  have hlast : ∀ cycle, (∃ d ∈ source.completeLog w [], d.problem = .dependencyCycle cycle) ↔
      cycle ∈ (Dependencies.ofOutline
        (Outline.ofRecords (source.records w).value)).value.cycles := by
    intro cycle
    rw [← Dependencies.exists_mem_cycleWarnings, completeLog_eq]
    refine ⟨?_, fun ⟨d, hd, hcycle⟩ => ⟨d, List.mem_append_right _ hd, hcycle⟩⟩
    rintro ⟨d, hd, hcycle⟩
    rcases List.mem_append.mp hd with hd | hd
    · rcases List.mem_append.mp hd with hd | hd
      · have hearly := not_isAboutDependencies hd
        rw [hcycle] at hearly
        cases hearly
      · obtain ⟨pair, -, rfl⟩ := List.mem_map.mp hd
        cases hcycle
    · exact ⟨d, hd, hcycle⟩
  rw [← hsteps]
  refine Iff.trans ?_ Dependencies.exists_mem_cycles_iff
  simp only [← hlast]
  constructor
  · rintro ⟨d, hd, cycle, hcycle, hab⟩
    exact ⟨cycle, ⟨d, hd, hcycle⟩, hab⟩
  · rintro ⟨cycle, ⟨d, hd, hcycle⟩, hab⟩
    exact ⟨d, hd, cycle, hcycle, hab⟩

/-- **A run reports every problem once, and none that is not there.**  Every record
that is not the first of its identifier is reported, in order.  If an error comes up
while the records are got together, the errors are these and the repeated
identifiers, and nothing is said about dependencies.  If there is neither an error
nor a record, the one error is that there are no tasks.  Otherwise the errors are
the repeated identifiers, and after them each reference of a task's first record
to an identifier that no record begins with, in the order of the pairs; the warnings
about dependency cycles follow.  Two tasks are on one that is warned about exactly if
each depends on the other, directly or by way of others. -/
theorem load_reports (source : Source) (w : Workspace) :
    let records := (source.records w).value
    let early := source.earlyErrors w
    let reported := (source.load w []).2
    reported.filter (fun d => d.problem.isRepeat) = Roster.repeatReports records ∧
    (early ≠ [] →
      reported.filter Diagnostic.isError = early ++ Roster.repeatReports records ∧
        ∀ d ∈ reported, d.problem.isAboutDependencies = false) ∧
    (early = [] → records = [] →
      reported.filter Diagnostic.isError =
        [⟨.error, none, .malformed (.noTasks source.origin)⟩]) ∧
    (early = [] → records ≠ [] →
      let warnings := Dependencies.cycleWarnings (Outline.ofRecords records)
      ∃ refs : List (TaskId × TaskId),
        refs.Pairwise Dependencies.PairBefore ∧
        (∀ n d, (n, d) ∈ refs ↔
          (∃ r, records.find? (fun r => r.id = n) = some r ∧ d ∈ r.depends) ∧
            ∀ r ∈ records, ¬ d.segments <+: r.id.segments) ∧
        (∀ d ∈ warnings, d.severity = .warning ∧ ∃ cycle, d.problem = .dependencyCycle cycle) ∧
        (∀ a b, (∃ d ∈ reported, ∃ cycle, d.problem = .dependencyCycle cycle ∧
            a ∈ cycle ∧ b ∈ cycle) ↔
          Relation.TransGen (Requires records) a b ∧
            Relation.TransGen (Requires records) b a) ∧
        reported = (source.records w).log ++ Roster.repeatReports records ++
          refs.map (Dependencies.danglingReport records) ++ warnings ∧
        reported.filter Diagnostic.isError = Roster.repeatReports records ++
          refs.map (Dependencies.danglingReport records)) := by
  intro records early reported
  refine ⟨filter_isRepeat_load source w, fun hearly => ?_, fun hearly hr => ?_,
    fun hearly hr => ?_⟩
  · -- after an error: the outline is not checked
    have hreported : reported = _ := log_load_of_early hearly
    rw [hreported]
    exact ⟨filter_isError_early, fun d hd => not_isAboutDependencies hd⟩
  · -- neither an error nor a record
    have hreported : reported = _ := log_load_of_none hearly hr
    have hnone : (source.records w).log.filter Diagnostic.isError = [] := hearly
    rw [hreported, List.filter_append, hnone]
    rfl
  · -- a run that comes to the checks
    have hreported : reported = _ := log_load_of_some hearly hr
    have hnone : source.earlyErrors w = [] := hearly
    refine ⟨_, Dependencies.danglingPairs_pairwise (Outline.ofRecords records),
      fun n d => Dependencies.mem_danglingPairs, fun d hd => Dependencies.mem_cycleWarnings hd,
      fun a b => ?_, hreported.trans (completeLog_eq source w), ?_⟩
    · rw [hreported]
      exact exists_cycle_completeLog
    · rw [hreported, filter_isError_completeLog, hnone, List.nil_append]

end Source

end TaskOutline
