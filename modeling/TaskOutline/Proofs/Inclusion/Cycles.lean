import TaskOutline.Proofs.Document.Relocation
import TaskOutline.Proofs.Document.Stage
import TaskOutline.Proofs.Inclusion.Steps

/-! # Include cycles

The files of a shelf and the document that includes them form a graph: its nodes
are the document and the places of files, and an edge leads from a node to each
place that an include block of its text lists.  An expansion keeps the places of
the files that it is in, and reports a cycle where a path leads to one of them.

A report of a cycle is a visit that `Takes` reaches, with the files of `way` being
expanded; the invariant is that `way` is a walk in the graph from the document
(`IncludeGraph.walk_of_takes`).  The other way round, a walk without a repeated node
is a way that the expansion takes (`IncludeGraph.takes_of_walk`), and a walk with a
repeated node has a beginning that repeats its last node only.
-/
namespace TaskOutline

/-! ## What a text includes -/

/-- A text includes a path when one of its include blocks lists it. -/
def TextIncludes (text path : String) : Prop :=
  ∃ files, .inclusion files ∈ (readDocument "" text).value ∧ path ∈ files.paths

theorem Block.visit_mem_steps {blocks : List Block} {path : String} {location : Location} :
    .visit ⟨path⟩ location ∈ blocks.flatMap Block.steps ↔
      ∃ files, .inclusion files ∈ blocks ∧ path ∈ files.paths ∧ location = files.location := by
  rw [List.mem_flatMap]
  constructor
  · rintro ⟨block, hblock, hstep⟩
    cases block with
    | task record => simp [Block.steps] at hstep
    | inclusion files =>
      simp only [Block.steps, List.mem_map, Step.visit.injEq, Path.mk.injEq] at hstep
      obtain ⟨p, hp, rfl, rfl⟩ := hstep
      exact ⟨files, hblock, hp, rfl⟩
  · rintro ⟨files, hblock, hp, rfl⟩
    exact ⟨.inclusion files, hblock, List.mem_map.mpr ⟨path, hp, rfl⟩⟩

/-- What a text includes does not depend on the name that it is read under. -/
theorem textIncludes_iff (origin : String) {text path : String} :
    TextIncludes text path ↔
      ∃ location, .visit ⟨path⟩ location ∈
        (readDocument origin text).value.flatMap Block.steps := by
  have hread : ((readDocument origin text).value.flatMap Block.steps) =
      ((readDocument "" text).value.flatMap Block.steps).map
        (Step.relocate (Location.move origin 0)) := by
    rw [readDocument_rename "" origin text]
    exact Block.steps_relocate _ _
  rw [hread]
  constructor
  · rintro ⟨files, hblock, hp⟩
    have hstep := Block.visit_mem_steps.mpr ⟨files, hblock, hp, rfl⟩
    exact ⟨_, List.mem_map.mpr ⟨_, hstep, rfl⟩⟩
  · rintro ⟨location, hstep⟩
    obtain ⟨step, hmem, heq⟩ := List.mem_map.mp hstep
    cases step with
    | task record => cases heq
    | visit p l =>
      cases heq
      obtain ⟨files, hblock, hp, -⟩ := Block.visit_mem_steps.mp hmem
      exact ⟨files, hblock, hp⟩

namespace Shelf

/-- The text that is kept at a place. -/
def textAt (s : Shelf) (place : Place) : Option String :=
  (s.files.find? fun file => file.1 = place).map Prod.snd

theorem read_eq_ok_iff {s : Shelf} {path : Path} {text : String} :
    s.read path = .ok text ↔ s.textAt path.place = some text := by
  unfold read textAt
  cases s.files.find? fun file => file.1 = path.place <;> simp

end Shelf

/-! ## The graph -/

/-- A document and the files that it may include. -/
structure IncludeGraph where
  shelf : Shelf
  /-- The directory that paths are looked up in. -/
  dir : Path
  /-- The path of the document, if it comes from a file. -/
  rootPath : Option Path
  /-- The text of the document. -/
  rootText : String

namespace IncludeGraph

/-- The node of the document: its place, if it comes from a file.  All other nodes
are places. -/
def root (g : IncludeGraph) : Option Place := g.rootPath.map Path.place

/-- The text of a node.  The place of the document has the text of the document,
whatever is on the shelf. -/
def textOf (g : IncludeGraph) (u : Option Place) : Option String :=
  if u = g.root then some g.rootText else u.bind g.shelf.textAt

/-- An include block in the text of `u` lists a path that leads to `v`. -/
def Edge (g : IncludeGraph) (u : Option Place) (v : Place) : Prop :=
  ∃ text path, g.textOf u = some text ∧ TextIncludes text path ∧ (g.dir.join ⟨path⟩).place = v

/-- A walk from the document along edges, through nodes that have a text.  The nodes
are listed from the last to the first. -/
inductive Walk (g : IncludeGraph) : List (Option Place) → Prop where
  | root : Walk g [g.root]
  | step {u : Option Place} {way : List (Option Place)} {v : Place} :
      Walk g (u :: way) → g.Edge u v → (g.textOf (some v)).isSome → Walk g (some v :: u :: way)

/-- A node is read under a name: the document under that of the source, a file under
a path that leads to it. -/
inductive ReadAs (g : IncludeGraph) (origin : String) :
    (node : Option Place) → (name text : String) → Prop where
  | root : ReadAs g origin g.root origin g.rootText
  | file {path : Path} {text : String} :
      g.textOf (some path.place) = some text → ReadAs g origin (some path.place) path.text text

variable {g : IncludeGraph}

theorem textOf_root : g.textOf g.root = some g.rootText := if_pos rfl

theorem textOf_file {v : Place} (h : some v ≠ g.root) :
    g.textOf (some v) = g.shelf.textAt v := if_neg h

theorem ReadAs.textOf {origin : String} {u : Option Place} {name text : String} (h : g.ReadAs origin u name text) :
    g.textOf u = some text := by
  cases h with
  | root => exact textOf_root
  | file htext => exact htext

namespace Walk

theorem root_mem {way : List (Option Place)} (h : g.Walk way) : g.root ∈ way := by
  induction h with
  | root => exact List.mem_singleton.mpr rfl
  | step _ _ _ ih => exact List.mem_cons_of_mem _ ih

theorem textOf_isSome {way : List (Option Place)} (h : g.Walk way) {u : Option Place}
    (hu : u ∈ way) : (g.textOf u).isSome := by
  induction h with
  | root =>
    rw [List.mem_singleton.mp hu, textOf_root]
    rfl
  | step _ _ htext ih =>
    rcases List.mem_cons.mp hu with rfl | hu
    · exact htext
    · exact ih hu

/-- A walk that comes to a node twice comes to one for the first time twice. -/
theorem exists_first_repeat {way : List (Option Place)} (h : g.Walk way) (hrep : ¬ way.Nodup) :
    ∃ u before v, g.Walk (u :: before) ∧ (u :: before).Nodup ∧ g.Edge u v ∧
      some v ∈ u :: before := by
  induction h with
  | root => exact absurd (by simp) hrep
  | @step u before v hwalk hedge _ ih =>
    by_cases hnodup : (u :: before).Nodup
    · refine ⟨u, before, v, hwalk, hnodup, hedge, ?_⟩
      exact Classical.byContradiction fun hnot => hrep (List.nodup_cons.mpr ⟨hnot, hnodup⟩)
    · exact ih hnodup

end Walk

/-! ## Walks and expansions -/

/-- The places among nodes. -/
def places (way : List (Option Place)) : List Place := way.filterMap id

theorem mem_places {way : List (Option Place)} {v : Place} : v ∈ places way ↔ some v ∈ way := by
  simp [places]

theorem places_root : places [g.root] = (g.rootPath.map Path.place).toList := by
  unfold root
  cases g.rootPath <;> rfl

/-- The steps of a text that is read under a name. -/
def stepsOf (name text : String) : List Step :=
  (readDocument name text).value.flatMap Block.steps

variable (cwd : Path) (origin : String)

/-- **What an expansion takes on the way of a walk is on the way of a walk.** -/
theorem walk_of_takes {way inner : List Place} {steps : List Step} {step : Step}
    (h : (g.shelf.workspace cwd).Takes g.dir way steps inner step)
    {u : Option Place} {before : List (Option Place)} {name text : String}
    (hwalk : g.Walk (u :: before)) (hname : g.ReadAs origin u name text)
    (hway : way = places (u :: before)) (hsteps : steps = stepsOf name text) :
    ∃ u' before' name' text', g.Walk (u' :: before') ∧ g.ReadAs origin u' name' text' ∧
      inner = places (u' :: before') ∧ step ∈ stepsOf name' text' := by
  induction h generalizing u before name text with
  | here hmem => exact ⟨u, before, name, text, hwalk, hname, hway, hsteps ▸ hmem⟩
  | @inside way inner steps step path location inside hmem hout hread _ ih =>
    subst hway hsteps
    -- the file is not on the way yet, so it is not the document
    have hnew : some (g.dir.join path).place ∉ u :: before := fun h => hout (mem_places.mpr h)
    have hne : some (g.dir.join path).place ≠ g.root := fun h => hnew (h ▸ hwalk.root_mem)
    have hinside : g.textOf (some (g.dir.join path).place) = some inside := by
      rw [textOf_file hne]
      exact Shelf.read_eq_ok_iff.mp hread
    have hedge : g.Edge u (g.dir.join path).place :=
      ⟨text, path.text, hname.textOf, (textIncludes_iff name).mpr ⟨location, hmem⟩, rfl⟩
    have hwalk' := hwalk.step hedge (hinside ▸ rfl)
    exact ih hwalk' (.file hinside) rfl rfl

/-- **A walk without a repeated node is a way that the expansion takes.** -/
theorem takes_of_walk {way : List (Option Place)} (h : g.Walk way) (hnodup : way.Nodup) :
    ∃ u before name text, way = u :: before ∧ g.ReadAs origin u name text ∧
      ∀ step ∈ stepsOf name text, (g.shelf.workspace cwd).Takes g.dir (places [g.root])
        (stepsOf origin g.rootText) (places way) step := by
  induction h with
  | root => exact ⟨g.root, [], origin, g.rootText, rfl, .root, fun _ hstep => .here hstep⟩
  | @step u before v hwalk hedge htext ih =>
    obtain ⟨hnew, hbefore⟩ := List.nodup_cons.mp hnodup
    obtain ⟨_, _, name, text, heq, hname, htakes⟩ := ih hbefore
    cases heq
    obtain ⟨text', path, htext', hincludes, rfl⟩ := hedge
    obtain rfl : text = text' := Option.some.inj (hname.textOf.symm.trans htext')
    obtain ⟨inside, hinside⟩ := Option.isSome_iff_exists.mp htext
    have hne : some (g.dir.join ⟨path⟩).place ≠ g.root := fun h => hnew (h ▸ hwalk.root_mem)
    have hread : g.shelf.read (g.dir.join ⟨path⟩) = .ok inside := by
      rw [Shelf.read_eq_ok_iff, ← textOf_file hne, hinside]
    -- the visit comes up in the text of `u`, and is gone into
    obtain ⟨location, hvisit⟩ := (textIncludes_iff name).mp hincludes
    refine ⟨_, _, (g.dir.join ⟨path⟩).text, inside, rfl, .file hinside, fun step hstep => ?_⟩
    exact (htakes _ hvisit).extend (fun h => hnew (mem_places.mp h)) hread hstep

/-- A report of a cycle among those of a visit says that the file is being expanded. -/
theorem eq_of_cyclicInclude_mem {w : Workspace} {dir path target : Path} {way : List Place}
    {location : Location} {d : Diagnostic} (h : d ∈ w.visitLog dir way path location)
    (hd : d.problem = .cyclicInclude target) :
    w.identity (dir.join path) ∈ way ∧
      d = ⟨.error, some location, .cyclicInclude (dir.join path)⟩ := by
  by_cases hway : w.identity (dir.join path) ∈ way
  · rw [Workspace.visitLog_of_mem location hway] at h
    exact ⟨hway, List.mem_singleton.mp h⟩
  · cases hread : w.read (dir.join path) with
    | error reason =>
      rw [Workspace.visitLog_of_error location hway hread] at h
      rw [List.mem_singleton.mp h] at hd
      cases hd
    | ok text =>
      rw [Workspace.visitLog_of_ok location hway hread] at h
      have hstage := readDocument_reports _ _ d h
      rw [AboutText, hd] at hstage
      cases hstage

/-- What is reported of the expansion of the document. -/
theorem mem_log_expand {d : Diagnostic} :
    d ∈ ((g.shelf.workspace cwd).expand g.dir g.rootPath
      (readDocument origin g.rootText).value).log ↔
      (g.shelf.workspace cwd).Reported g.dir (places [g.root]) (stepsOf origin g.rootText) d := by
  rw [places_root]
  exact Workspace.mem_log_follow _ _

/-- A report of a cycle comes from an include block at the end of a walk, and names a
path to a node of this walk. -/
theorem walk_of_cyclicInclude {d : Diagnostic} {target : Path}
    (hd : (g.shelf.workspace cwd).Reported g.dir (places [g.root]) (stepsOf origin g.rootText) d)
    (hproblem : d.problem = .cyclicInclude target) :
    ∃ u before name text files path, g.Walk (u :: before) ∧ g.ReadAs origin u name text ∧
      .inclusion files ∈ (readDocument name text).value ∧ path ∈ files.paths ∧
      target = g.dir.join ⟨path⟩ ∧
      d = ⟨.error, some files.location, .cyclicInclude target⟩ ∧
      some target.place ∈ u :: before := by
  obtain ⟨inner, path, location, htake, hvisit⟩ := hd
  obtain ⟨hmem, rfl⟩ := eq_of_cyclicInclude_mem hvisit hproblem
  obtain ⟨u, before, name, text, hwalk, hname, rfl, hstep⟩ :=
    walk_of_takes cwd origin htake .root .root rfl rfl
  obtain ⟨files, hblock, hpath, rfl⟩ := Block.visit_mem_steps.mp hstep
  cases hproblem
  exact ⟨u, before, name, text, files, path.text, hwalk, hname, hblock, hpath, rfl, rfl,
    mem_places.mp hmem⟩

/-- A walk that comes to a node twice makes the expansion report a cycle. -/
theorem cyclicInclude_of_walk {way : List (Option Place)} (h : g.Walk way) (hrep : ¬ way.Nodup) :
    ∃ d path, d.problem = .cyclicInclude path ∧
      (g.shelf.workspace cwd).Reported g.dir (places [g.root]) (stepsOf origin g.rootText) d := by
  -- up to its first repeated node the walk is a way that the expansion takes
  obtain ⟨u, before, v, hw, hnodup, ⟨text, path, htext, hincludes, rfl⟩, hmem⟩ :=
    h.exists_first_repeat hrep
  obtain ⟨_, _, name, text', heq, hname, htakes⟩ := takes_of_walk cwd origin hw hnodup
  cases heq
  obtain rfl : text' = text := Option.some.inj (hname.textOf.symm.trans htext)
  obtain ⟨location, hvisit⟩ := (textIncludes_iff name).mp hincludes
  refine ⟨⟨.error, some location, .cyclicInclude (g.dir.join ⟨path⟩)⟩, _, rfl, ?_⟩
  refine ⟨_, ⟨path⟩, location, htakes _ hvisit, ?_⟩
  rw [Workspace.visitLog_of_mem location (mem_places.mpr hmem)]
  exact List.mem_singleton.mpr rfl

/-- **Include cycles are found, and nothing else is taken for one.**  The expansion
of a document reports a cycle exactly when a walk from the document through files
that can be read comes to a place twice.  Each report stands at an include block in
the text of the last node of a walk, and names a path that the block lists and that
leads to a node of this walk. -/
theorem expand_cyclicInclude (g : IncludeGraph) (cwd : Path) (origin : String) :
    let log := ((g.shelf.workspace cwd).expand g.dir g.rootPath
      (readDocument origin g.rootText).value).log
    ((∃ d ∈ log, ∃ path, d.problem = .cyclicInclude path) ↔
      ∃ way, g.Walk way ∧ ¬ way.Nodup) ∧
    ∀ d ∈ log, ∀ target, d.problem = .cyclicInclude target →
      ∃ u before name text files path, g.Walk (u :: before) ∧ g.ReadAs origin u name text ∧
        .inclusion files ∈ (readDocument name text).value ∧ path ∈ files.paths ∧
        target = g.dir.join ⟨path⟩ ∧
        d = ⟨.error, some files.location, .cyclicInclude target⟩ ∧
        some target.place ∈ u :: before := by
  intro log
  refine ⟨⟨?_, ?_⟩, fun d hd target hproblem =>
    walk_of_cyclicInclude cwd origin ((mem_log_expand cwd origin).mp hd) hproblem⟩
  · -- the walk to the block of a report, with one step more, repeats a node
    rintro ⟨d, hd, target, hproblem⟩
    obtain ⟨u, before, name, text, files, path, hw, hname, hblock, hpath, rfl, -, hmem⟩ :=
      walk_of_cyclicInclude cwd origin ((mem_log_expand cwd origin).mp hd) hproblem
    have hincludes : TextIncludes text path :=
      (textIncludes_iff name).mpr ⟨_, Block.visit_mem_steps.mpr ⟨files, hblock, hpath, rfl⟩⟩
    refine ⟨_, hw.step ⟨text, path, hname.textOf, hincludes, rfl⟩ (hw.textOf_isSome hmem), ?_⟩
    exact fun hnodup => (List.nodup_cons.mp hnodup).1 hmem
  · rintro ⟨way, hw, hrep⟩
    obtain ⟨d, path, hproblem, hd⟩ := cyclicInclude_of_walk cwd origin hw hrep
    exact ⟨d, (mem_log_expand cwd origin).mpr hd, path, hproblem⟩

end IncludeGraph

end TaskOutline
