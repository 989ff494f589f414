import TaskOutline.Document.Expansion
import TaskOutline.Load
import TaskOutline.Proofs.Document.Reports

/-! # Which stage reports what

A run goes through stages, and each of them reports problems of its own: reading a
text, expanding what it includes, putting the records in their places, and
checking their dependencies.  `Problem.stage` tells them apart, so that the
reports of one stage can be picked out of those of a run.
-/
namespace TaskOutline

/-- The stage of a run that finds a problem. -/
inductive Stage where
  | reading
  | inclusion
  | building
  | checking
deriving DecidableEq

/-- The stage that a problem belongs to. -/
def Problem.stage : Problem → Stage
  | .missingInclude _ _ | .cyclicInclude _ => .inclusion
  | .duplicateIdentifier _ _ | .malformed (.noTasks _) => .building
  | .missingDependency _ _ | .dependencyCycle _ => .checking
  | _ => .reading

/-! ## Reading a text -/

/-- The diagnostic is about a text as such. -/
def AboutText (d : Diagnostic) : Prop := d.problem.stage = .reading

/-- What a section reports is about the text. -/
theorem Section.Owns.aboutText {origin : String} {s : Section} {d : Diagnostic}
    (h : s.Owns origin d) : AboutText d := by
  have hproblem := h.ofSection
  unfold AboutText
  unfold Problem.ofSection at hproblem
  split at hproblem <;> simp_all [Problem.stage]

/-- **Reading a text reports problems of the text and no others.** -/
theorem readDocument_reports (origin text : String) :
    (readDocument origin text).Reports AboutText := by
  intro d hd
  rw [log_readDocument] at hd
  rcases List.mem_append.mp hd with hd | hd
  · rcases List.mem_append.mp hd with hd | hd
    · obtain ⟨n, -, rfl⟩ := List.mem_map.mp hd
      rfl
    · obtain ⟨s, -, hd⟩ := List.mem_flatMap.mp hd
      exact (Section.read_reports origin s d hd).aboutText
  · obtain ⟨n, -, rfl⟩ := List.mem_map.mp hd
    rfl

/-! ## Expanding what is included -/

/-- A record among the steps of blocks is declared by one of the blocks. -/
theorem Block.task_mem_steps {blocks : List Block} {r : Record}
    (h : .task r ∈ blocks.flatMap Block.steps) : .task r ∈ blocks := by
  obtain ⟨block, hblock, hstep⟩ := List.mem_flatMap.mp h
  cases block with
  | task record =>
    obtain rfl : record = r := by simpa [Block.steps, eq_comm] using hstep
    exact hblock
  | inclusion files => simp [Block.steps] at hstep

namespace Workspace

/-- **What expansion reports.**  A property that the two include errors have, and
all that is reported of a text, is had by every diagnostic of an expansion. -/
theorem follow_reports {P : Diagnostic → Prop} (w : Workspace) (dir : Path)
    (hcycle : ∀ location path, P ⟨.error, some location, .cyclicInclude path⟩)
    (hmissing : ∀ location path reason, P ⟨.error, some location, .missingInclude path reason⟩)
    (hread : ∀ origin text, (readDocument origin text).Reports P)
    (way : List Place) (steps : List Step) : (w.follow dir way steps).Reports P := by
  fun_induction w.follow dir way steps with
  | case1 way => simp
  | case2 way record rest ih => simp [ih]
  | case3 way path location rest target hway ih => simp [ih, hcycle]
  | case4 way path location rest target hway reason hfail ih => simp [ih, hmissing]
  | case5 way path location rest target hway text hok ih₁ ih₂ =>
    simp [hread, ih₁, ih₂]

/-- A property that all records of texts have is had by every record of an
expansion, if the records that are already there have it. -/
theorem forall_mem_follow {P : Record → Prop} (w : Workspace) (dir : Path)
    (hread : ∀ origin text r, .task r ∈ (readDocument origin text).value → P r)
    (way : List Place) (steps : List Step) (hsteps : ∀ r, .task r ∈ steps → P r) :
    ∀ r ∈ (w.follow dir way steps).value, P r := by
  -- the records come from the steps themselves, and from the files that are visited
  fun_induction w.follow dir way steps with
  | case1 way => simp
  | case2 way record rest ih =>
    have hrest := ih fun r hr => hsteps r (List.mem_cons_of_mem _ hr)
    intro r hr
    rcases List.mem_cons.mp hr with rfl | hr
    · exact hsteps r List.mem_cons_self
    · exact hrest r hr
  | case3 way path location rest target hway ih =>
    exact ih fun r hr => hsteps r (List.mem_cons_of_mem _ hr)
  | case4 way path location rest target hway reason hfail ih =>
    exact ih fun r hr => hsteps r (List.mem_cons_of_mem _ hr)
  | case5 way path location rest target hway text hok ih₁ ih₂ =>
    have hrest := ih₂ fun r hr => hsteps r (List.mem_cons_of_mem _ hr)
    have hinner := ih₁ (readDocument target.text text).value fun r hr =>
      hread _ _ r (Block.task_mem_steps hr)
    intro r hr
    rcases List.mem_append.mp hr with hr | hr
    · exact hinner r hr
    · exact hrest r hr

theorem expand_reports {P : Diagnostic → Prop} (w : Workspace) (dir : Path)
    (hcycle : ∀ location path, P ⟨.error, some location, .cyclicInclude path⟩)
    (hmissing : ∀ location path reason, P ⟨.error, some location, .missingInclude path reason⟩)
    (hread : ∀ origin text, (readDocument origin text).Reports P)
    (root : Option Path) (blocks : List Block) : (w.expand dir root blocks).Reports P :=
  w.follow_reports dir hcycle hmissing hread _ _

end Workspace

namespace Source

/-- A property that all records of texts have is had by every record of a source. -/
theorem forall_mem_records {P : Record → Prop}
    (hread : ∀ origin text r, .task r ∈ (readDocument origin text).value → P r)
    (source : Source) (w : Workspace) : ∀ r ∈ (source.records w).value, P r := by
  exact w.forall_mem_follow _ hread _ _ fun r hr => hread _ _ r (Block.task_mem_steps hr)

/-- **The records of a source are got together without a word on duplicates,
missing dependencies or dependency cycles.** -/
theorem records_reports (source : Source) (w : Workspace) :
    (source.records w).Reports fun d =>
      d.problem.stage = .reading ∨ d.problem.stage = .inclusion := by
  unfold Source.records
  rw [Logged.reports_bind]
  refine ⟨(readDocument_reports _ _).imp fun _ => .inl, ?_⟩
  exact w.expand_reports _ (fun _ _ => .inr rfl) (fun _ _ _ => .inr rfl)
    (fun _ _ => (readDocument_reports _ _).imp fun _ => .inl) _ _

end Source

end TaskOutline
