import TaskOutline.Document.Expansion

/-! # The steps that an expansion takes

`Workspace.follow` goes through steps in order, and at a visit it goes into the file
before it goes on.  `Takes` says which steps come up on the way, and with which
files being expanded; the order is left out.  A report of an expansion is a report
of one of the visits that it takes (`mem_log_follow`), so that a statement about
which reports there are is a statement about which visits are taken.
-/
namespace TaskOutline.Workspace

variable (w : Workspace) (dir : Path)

/-- Following `steps`, with the files of `way` being expanded, `step` comes up when
those of `inner` are. -/
inductive Takes : (way : List Place) → (steps : List Step) → (inner : List Place) →
    (step : Step) → Prop where
  | here {way : List Place} {steps : List Step} {step : Step} :
      step ∈ steps → Takes way steps way step
  | inside {way inner : List Place} {steps : List Step} {step : Step} {path : Path}
      {location : Location} {text : String} :
      .visit path location ∈ steps → w.identity (dir.join path) ∉ way →
      w.read (dir.join path) = .ok text →
      Takes (w.identity (dir.join path) :: way)
        ((readDocument (dir.join path).text text).value.flatMap Block.steps) inner step →
      Takes way steps inner step

/-- What is reported of a visit itself: that the file is being expanded already,
that it cannot be read, or what is wrong with its text. -/
def visitLog (way : List Place) (path : Path) (location : Location) : List Diagnostic :=
  if w.identity (dir.join path) ∈ way then
    [⟨.error, some location, .cyclicInclude (dir.join path)⟩]
  else match w.read (dir.join path) with
    | .error reason => [⟨.error, some location, .missingInclude (dir.join path) reason⟩]
    | .ok text => (readDocument (dir.join path).text text).log

variable {w dir} {way inner : List Place} {steps rest : List Step} {step first : Step}

theorem visitLog_of_mem {path : Path} (location : Location)
    (h : w.identity (dir.join path) ∈ way) :
    w.visitLog dir way path location =
      [⟨.error, some location, .cyclicInclude (dir.join path)⟩] :=
  if_pos h

theorem visitLog_of_error {path : Path} (location : Location) {reason : String}
    (h : w.identity (dir.join path) ∉ way) (hread : w.read (dir.join path) = .error reason) :
    w.visitLog dir way path location =
      [⟨.error, some location, .missingInclude (dir.join path) reason⟩] := by
  rw [visitLog, if_neg h, hread]

theorem visitLog_of_ok {path : Path} (location : Location) {text : String}
    (h : w.identity (dir.join path) ∉ way) (hread : w.read (dir.join path) = .ok text) :
    w.visitLog dir way path location = (readDocument (dir.join path).text text).log := by
  rw [visitLog, if_neg h, hread]

/-! ## One step at a time -/

theorem follow_nil (w : Workspace) (dir : Path) (way : List Place) :
    w.follow dir way [] = ⟨[], []⟩ := by
  rw [follow]
  rfl

theorem follow_task (w : Workspace) (dir : Path) (way : List Place) (record : Record)
    (rest : List Step) :
    w.follow dir way (.task record :: rest) =
      ⟨record :: (w.follow dir way rest).value, (w.follow dir way rest).log⟩ := by
  rw [follow]
  ext1 <;> simp

theorem follow_tasks (w : Workspace) (dir : Path) (way : List Place) (records : List Record) :
    w.follow dir way (records.map .task) = ⟨records, []⟩ := by
  induction records with
  | nil => exact follow_nil w dir way
  | cons r rest ih =>
    rw [List.map_cons, follow_task, ih]

/-- Blocks that only declare tasks give their records, whatever can be read. -/
theorem expand_tasks (w : Workspace) (dir : Path) (root : Option Path)
    (records : List Record) : w.expand dir root (records.map .task) = ⟨records, []⟩ := by
  have hsteps : (records.map Block.task).flatMap Block.steps = records.map Step.task := by
    rw [List.flatMap_map, List.map_eq_flatMap]
    rfl
  rw [expand, hsteps, follow_tasks]

theorem follow_of_mem {path : Path} (location : Location) (rest : List Step)
    (h : w.identity (dir.join path) ∈ way) :
    w.follow dir way (.visit path location :: rest) =
      ⟨(w.follow dir way rest).value,
        ⟨.error, some location, .cyclicInclude (dir.join path)⟩ ::
          (w.follow dir way rest).log⟩ := by
  rw [follow, if_pos h]
  rfl

theorem follow_of_error {path : Path} (location : Location) (rest : List Step) {reason : String}
    (h : w.identity (dir.join path) ∉ way) (hread : w.read (dir.join path) = .error reason) :
    w.follow dir way (.visit path location :: rest) =
      ⟨(w.follow dir way rest).value,
        ⟨.error, some location, .missingInclude (dir.join path) reason⟩ ::
          (w.follow dir way rest).log⟩ := by
  rw [follow, if_neg h]
  split
  · rename_i reason' hread'
    cases hread.symm.trans hread'
    rfl
  · rename_i text hread'
    cases hread.symm.trans hread'

/-- A file that is gone into: its blocks are read, and its steps are followed before
those after it. -/
theorem follow_of_ok {path : Path} (location : Location) (rest : List Step) {text : String}
    (h : w.identity (dir.join path) ∉ way) (hread : w.read (dir.join path) = .ok text) :
    w.follow dir way (.visit path location :: rest) =
      let blocks := readDocument (dir.join path).text text
      let inside := w.follow dir (w.identity (dir.join path) :: way)
        (blocks.value.flatMap Block.steps)
      ⟨inside.value ++ (w.follow dir way rest).value,
        blocks.log ++ (inside.log ++ (w.follow dir way rest).log)⟩ := by
  rw [follow, if_neg h]
  split
  · rename_i reason hread'
    cases hread.symm.trans hread'
  · rename_i text' hread'
    cases hread.symm.trans hread'
    ext1 <;> simp

namespace Takes

theorem mono {more : List Step} (h : w.Takes dir way steps inner step)
    (hsub : ∀ s ∈ steps, s ∈ more) : w.Takes dir way more inner step := by
  cases h with
  | here hmem => exact .here (hsub _ hmem)
  | inside hmem hway hread hin => exact .inside (hsub _ hmem) hway hread hin

/-- A step is taken at the first of a list or further on. -/
theorem cons_iff : w.Takes dir way (first :: rest) inner step ↔
    w.Takes dir way [first] inner step ∨ w.Takes dir way rest inner step := by
  constructor
  · intro h
    cases h with
    | here hmem =>
      rcases List.mem_cons.mp hmem with rfl | hmem
      · exact .inl (.here List.mem_cons_self)
      · exact .inr (.here hmem)
    | inside hmem hway hread hin =>
      rcases List.mem_cons.mp hmem with rfl | hmem
      · exact .inl (.inside List.mem_cons_self hway hread hin)
      · exact .inr (.inside hmem hway hread hin)
  · rintro (h | h)
    · exact h.mono fun s hs => by simp_all
    · exact h.mono fun s hs => List.mem_cons_of_mem _ hs

theorem not_nil : ¬ w.Takes dir way [] inner step := by
  intro h
  cases h with
  | here hmem => cases hmem
  | inside hmem => cases hmem

theorem task_iff {record : Record} :
    w.Takes dir way [.task record] inner step ↔ inner = way ∧ step = .task record := by
  constructor
  · intro h
    cases h with
    | here hmem => exact ⟨rfl, List.mem_singleton.mp hmem⟩
    | inside hmem => cases List.mem_singleton.mp hmem
  · rintro ⟨rfl, rfl⟩
    exact .here List.mem_cons_self

/-- A visit that is not gone into leads to itself alone. -/
theorem closed_visit_iff {path : Path} {location : Location}
    (hclosed : w.identity (dir.join path) ∉ way → ∀ text, w.read (dir.join path) ≠ .ok text) :
    w.Takes dir way [.visit path location] inner step ↔
      inner = way ∧ step = .visit path location := by
  constructor
  · intro h
    cases h with
    | here hmem => exact ⟨rfl, List.mem_singleton.mp hmem⟩
    | inside hmem hway hread =>
      cases List.mem_singleton.mp hmem
      exact absurd hread (hclosed hway _)
  · rintro ⟨rfl, rfl⟩
    exact .here List.mem_cons_self

/-- A visit that is gone into leads to itself and to the steps of the file. -/
theorem open_visit_iff {path : Path} {location : Location} {text : String}
    (hway : w.identity (dir.join path) ∉ way) (hread : w.read (dir.join path) = .ok text) :
    w.Takes dir way [.visit path location] inner step ↔
      (inner = way ∧ step = .visit path location) ∨
        w.Takes dir (w.identity (dir.join path) :: way)
          ((readDocument (dir.join path).text text).value.flatMap Block.steps) inner step := by
  constructor
  · intro h
    cases h with
    | here hmem => exact .inl ⟨rfl, List.mem_singleton.mp hmem⟩
    | inside hmem hway' hread' hin =>
      cases List.mem_singleton.mp hmem
      rw [hread] at hread'
      cases hread'
      exact .inr hin
  · rintro (⟨rfl, rfl⟩ | hin)
    · exact .here List.mem_cons_self
    · exact .inside List.mem_cons_self hway hread hin

/-- A file that is gone into where a visit is taken adds its steps. -/
theorem extend {path : Path} {location : Location} {text : String}
    (h : w.Takes dir way steps inner (.visit path location))
    (hway : w.identity (dir.join path) ∉ inner) (hread : w.read (dir.join path) = .ok text)
    (hstep : step ∈ (readDocument (dir.join path).text text).value.flatMap Block.steps) :
    w.Takes dir way steps (w.identity (dir.join path) :: inner) step := by
  generalize hvisit : Step.visit path location = visit at h
  induction h with
  | here hmem =>
    subst hvisit
    exact .inside hmem hway hread (.here hstep)
  | inside hmem hout htext _ ih => exact .inside hmem hout htext (ih hway hvisit)

end Takes

/-- A visit that following `steps` takes has this report. -/
def Reported (w : Workspace) (dir : Path) (way : List Place) (steps : List Step)
    (d : Diagnostic) : Prop :=
  ∃ inner path location, w.Takes dir way steps inner (.visit path location) ∧
    d ∈ w.visitLog dir inner path location

namespace Reported

variable {d : Diagnostic}

theorem not_nil : ¬ w.Reported dir way [] d := by
  rintro ⟨inner, path, location, htake, -⟩
  exact Takes.not_nil htake

theorem cons_iff : w.Reported dir way (first :: rest) d ↔
    w.Reported dir way [first] d ∨ w.Reported dir way rest d := by
  constructor
  · rintro ⟨inner, path, location, htake, hd⟩
    rcases Takes.cons_iff.mp htake with htake | htake
    · exact .inl ⟨inner, path, location, htake, hd⟩
    · exact .inr ⟨inner, path, location, htake, hd⟩
  · rintro (⟨inner, path, location, htake, hd⟩ | ⟨inner, path, location, htake, hd⟩)
    · exact ⟨inner, path, location, Takes.cons_iff.mpr (.inl htake), hd⟩
    · exact ⟨inner, path, location, Takes.cons_iff.mpr (.inr htake), hd⟩

theorem not_task {record : Record} : ¬ w.Reported dir way [.task record] d := by
  rintro ⟨inner, path, location, htake, -⟩
  cases (Takes.task_iff.mp htake).2

theorem closed_visit_iff {path : Path} {location : Location}
    (hclosed : w.identity (dir.join path) ∉ way → ∀ text, w.read (dir.join path) ≠ .ok text) :
    w.Reported dir way [.visit path location] d ↔ d ∈ w.visitLog dir way path location := by
  constructor
  · rintro ⟨inner, path', location', htake, hd⟩
    obtain ⟨rfl, hstep⟩ := (Takes.closed_visit_iff hclosed).mp htake
    cases hstep
    exact hd
  · intro hd
    exact ⟨way, path, location, .here List.mem_cons_self, hd⟩

theorem open_visit_iff {path : Path} {location : Location} {text : String}
    (hway : w.identity (dir.join path) ∉ way) (hread : w.read (dir.join path) = .ok text) :
    w.Reported dir way [.visit path location] d ↔
      d ∈ w.visitLog dir way path location ∨ w.Reported dir (w.identity (dir.join path) :: way)
        ((readDocument (dir.join path).text text).value.flatMap Block.steps) d := by
  constructor
  · rintro ⟨inner, path', location', htake, hd⟩
    rcases (Takes.open_visit_iff hway hread).mp htake with ⟨rfl, hstep⟩ | htake
    · cases hstep
      exact .inl hd
    · exact .inr ⟨inner, path', location', htake, hd⟩
  · rintro (hd | ⟨inner, path', location', htake, hd⟩)
    · exact ⟨way, path, location, .here List.mem_cons_self, hd⟩
    · exact ⟨inner, path', location', .inside List.mem_cons_self hway hread htake, hd⟩

end Reported

/-- **A report of an expansion is a report of one of its visits.** -/
theorem mem_log_follow {d : Diagnostic} (way : List Place) (steps : List Step) :
    d ∈ (w.follow dir way steps).log ↔ w.Reported dir way steps d := by
  fun_induction w.follow dir way steps with
  | case1 way => simp [Reported.not_nil]
  | case2 way record rest ih =>
    rw [Reported.cons_iff]
    simp [Reported.not_task, ih]
  | case3 way path location rest target hway ih =>
    rw [Reported.cons_iff, Reported.closed_visit_iff fun hnot => absurd hway hnot,
      visitLog_of_mem location hway]
    simp [target, ih]
  | case4 way path location rest target hway reason hfail ih =>
    have hread : w.read (dir.join path) = .error reason := hfail
    rw [Reported.cons_iff, Reported.closed_visit_iff fun _ text hok => by simp [hread] at hok,
      visitLog_of_error location hway hread]
    simp [target, ih]
  | case5 way path location rest target hway text hok ih₁ ih₂ =>
    have hread : w.read (dir.join path) = .ok text := hok
    rw [Reported.cons_iff, Reported.open_visit_iff hway hread,
      visitLog_of_ok location hway hread]
    simp [target, ih₁, ih₂, or_assoc]

theorem Takes.exists_cons_iff : (∃ inner, w.Takes dir way (first :: rest) inner step) ↔
    (∃ inner, w.Takes dir way [first] inner step) ∨ ∃ inner, w.Takes dir way rest inner step := by
  rw [← exists_or]
  exact exists_congr fun _ => cons_iff

/-- **A record of an expansion is one of the tasks that it takes.** -/
theorem mem_value_follow {r : Record} (way : List Place) (steps : List Step) :
    r ∈ (w.follow dir way steps).value ↔ ∃ inner, w.Takes dir way steps inner (.task r) := by
  fun_induction w.follow dir way steps with
  | case1 way => simp [Takes.not_nil]
  | case2 way record rest ih =>
    rw [Takes.exists_cons_iff]
    simp [Takes.task_iff, ih]
  | case3 way path location rest target hway ih =>
    rw [Takes.exists_cons_iff]
    simp [Takes.closed_visit_iff fun hnot => absurd hway hnot, ih]
  | case4 way path location rest target hway reason hfail ih =>
    have hclosed : w.identity (dir.join path) ∉ way → ∀ text, w.read (dir.join path) ≠ .ok text :=
      fun _ text hok => by cases hfail.symm.trans hok
    rw [Takes.exists_cons_iff]
    simp [Takes.closed_visit_iff hclosed, ih]
  | case5 way path location rest target hway text hok ih₁ ih₂ =>
    rw [Takes.exists_cons_iff]
    simp [Takes.open_visit_iff hway hok, target, ih₁, ih₂]

end TaskOutline.Workspace
