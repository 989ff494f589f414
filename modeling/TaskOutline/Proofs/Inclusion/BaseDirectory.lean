import TaskOutline.Proofs.Document.Relocation
import TaskOutline.Proofs.Inclusion.Steps
import TaskOutline.Proofs.Path.Normal

/-! # The spelling of the base directory

Files in memory are found by place.  So where two base directories have the same place, the
paths that are looked up in them lead to the same files, and two expansions take the same
way at every visit: both go into the file, or both report the same of it
(`Workspace.follow_unspelled`).  What differs are the names that texts are read under, and
with them the origins of locations, and the paths that reports of visits mention.
-/
namespace TaskOutline

/-! ## Without spellings -/

/-- A line of a text without the name of the text. -/
def Location.unnamed (l : Location) : Location := ⟨"", l.line⟩

/-- A problem with an included file named by its place. -/
def Problem.unspelled : Problem → Problem
  | .missingInclude path reason => .missingInclude path.normal reason
  | .cyclicInclude path => .cyclicInclude path.normal
  | problem => problem

/-- A diagnostic without what hangs on the spelling of paths. -/
def Diagnostic.unspelled (d : Diagnostic) : Diagnostic :=
  ⟨d.severity, d.location.map Location.unnamed, d.problem.unspelled⟩

/-- Records with reports, without what hangs on the spelling of paths. -/
def Logged.unspelled (x : Logged (List Record)) : Logged (List Record) :=
  ⟨x.value.map (Record.relocate Location.unnamed), x.log.map Diagnostic.unspelled⟩

theorem Problem.kind_unspelled (p : Problem) : p.unspelled.kind = p.kind := by
  cases p <;> rfl

/-- How severe a diagnostic is, of which kind, and at which line. -/
def Diagnostic.gist (d : Diagnostic) : Severity × String × Option Nat :=
  (d.severity, d.problem.kind, d.location.map Location.line)

/-- No spelling shows in the gist. -/
theorem Diagnostic.gist_unspelled (d : Diagnostic) : d.unspelled.gist = d.gist := by
  unfold gist unspelled
  simp only [Problem.kind_unspelled, Option.map_map]
  rfl

theorem Diagnostic.map_gist_of_unspelled {ds ds' : List Diagnostic}
    (h : ds.map unspelled = ds'.map unspelled) : ds.map gist = ds'.map gist := by
  have hgist : ∀ xs : List Diagnostic, (xs.map unspelled).map gist = xs.map gist := by
    intro xs
    rw [List.map_map]
    exact List.map_congr_left fun d _ => d.gist_unspelled
  rw [← hgist ds, h, hgist ds']

theorem Location.unnamed_move (origin : String) (l : Location) :
    (l.move origin 0).unnamed = l.unnamed :=
  rfl

theorem Diagnostic.unspelled_rename (origin : String) (d : Diagnostic) :
    (d.relocate (Location.move origin 0)).unspelled = d.unspelled := by
  unfold unspelled relocate
  simp only [Option.map_map]
  rfl

/-- A text says the same under another name. -/
theorem log_readDocument_unspelled (origin origin' text : String) :
    (readDocument origin' text).log.map Diagnostic.unspelled =
      (readDocument origin text).log.map Diagnostic.unspelled := by
  rw [readDocument_rename origin origin' text, Logged.relocate, List.map_map]
  exact List.map_congr_left fun d _ => Diagnostic.unspelled_rename origin' d

/-- The steps of a text are the same under another name, except for the name. -/
theorem steps_readDocument_rename (origin origin' text : String) :
    (readDocument origin' text).value.flatMap Block.steps =
      ((readDocument origin text).value.flatMap Block.steps).map
        (Step.relocate (Location.move origin' 0)) := by
  rw [readDocument_rename origin origin' text, Logged.relocate, Block.steps_relocate]

/-! ## Two expansions -/

namespace Workspace

/-- What a path leads to is known from its place. -/
structure ByPlace (w : Workspace) : Prop where
  read : ∀ {p q : Path}, p.place = q.place → w.read p = w.read q
  identity : ∀ {p q : Path}, p.place = q.place → w.identity p = w.identity q

variable {w : Workspace} {dir dir' : Path} {way : List Place} {steps : List Step}

/-- **Two expansions go the same way**, from directories with the same place and along steps
that differ in the names of texts only. -/
theorem follow_unspelled (hw : w.ByPlace) (hdir : dir.place = dir'.place) (origin : String) :
    (w.follow dir' way (steps.map (Step.relocate (Location.move origin 0)))).unspelled =
      (w.follow dir way steps).unspelled := by
  have htarget : ∀ path, (dir'.join path).place = (dir.join path).place :=
    Path.place_join_congr hdir.symm
  have hnormal : ∀ path, (dir'.join path).normal = (dir.join path).normal :=
    fun path => congrArg (fun place => Path.mk (Place.text place)) (htarget path)
  fun_induction w.follow dir way steps generalizing origin with
  | case1 way =>
    rw [List.map_nil, follow_nil]
    rfl
  | case2 way record rest ih =>
    have hrest := ih origin
    rw [List.map_cons, Step.relocate, follow_task]
    simp only [Logged.unspelled, Logged.mk.injEq] at hrest ⊢
    simp [Record.relocate, Location.unnamed_move, hrest]
  | case3 way path location rest target hway ih =>
    have hway' : w.identity (dir'.join path) ∈ way := hw.identity (htarget path) ▸ hway
    have hrest := ih origin
    rw [List.map_cons, Step.relocate, follow_of_mem _ _ hway']
    simp only [Logged.unspelled, Logged.mk.injEq] at hrest ⊢
    simp [hrest, target, Diagnostic.unspelled, Problem.unspelled, hnormal path,
      Location.unnamed_move]
  | case4 way path location rest target hway reason hfail ih =>
    have hway' : w.identity (dir'.join path) ∉ way := hw.identity (htarget path) ▸ hway
    have hfail' : w.read (dir'.join path) = .error reason := hw.read (htarget path) ▸ hfail
    have hrest := ih origin
    rw [List.map_cons, Step.relocate, follow_of_error _ _ hway' hfail']
    simp only [Logged.unspelled, Logged.mk.injEq] at hrest ⊢
    simp [hrest, target, Diagnostic.unspelled, Problem.unspelled, hnormal path,
      Location.unnamed_move]
  | case5 way path location rest target hway text hok ih₁ ih₂ =>
    have hidentity : w.identity (dir'.join path) = w.identity target := hw.identity (htarget path)
    have hway' : w.identity (dir'.join path) ∉ way := hidentity ▸ hway
    have hok' : w.read (dir'.join path) = .ok text := hw.read (htarget path) ▸ hok
    have hrest := ih₂ origin
    -- the file is read under another name, which its steps have in their locations
    have hinside := ih₁ (readDocument target.text text).value (dir'.join path).text
    rw [← steps_readDocument_rename] at hinside
    have hlog := log_readDocument_unspelled target.text (dir'.join path).text text
    rw [List.map_cons, Step.relocate, follow_of_ok _ _ hway' hok', hidentity]
    simp only [Logged.unspelled, Logged.mk.injEq] at hinside hrest ⊢
    simp [hinside, hrest, hlog]

end Workspace

namespace Shelf

theorem byPlace (s : Shelf) (cwd : Path) : (s.workspace cwd).ByPlace where
  read {p q} h := by
    show s.read p = s.read q
    rw [read, read, h]
  identity h := h

/-- **The spelling of the base directory does not matter.**  With files in memory, an
expansion gives the same records from two directories with the same place, except for the
origins of their locations, and reports of the same severity and kind at the same lines.
For the place of a joined path is that of a path joined to the place, and a place leads to
itself. -/
theorem expand_respelled (s : Shelf) (cwd dir dir' : Path) (root : Option Path)
    (blocks : List Block) (h : dir.place = dir'.place) :
    let w := s.workspace cwd
    let x := w.expand dir root blocks
    let y := w.expand dir' root blocks
    x.value.map (Record.relocate Location.unnamed) =
        y.value.map (Record.relocate Location.unnamed) ∧
      x.log.map Diagnostic.gist = y.log.map Diagnostic.gist ∧
      (∀ a b : Path, (a.join b).place = (a.normal.join b).place) ∧
      ∀ a : Path, w.identity ⟨(w.identity a).text⟩ = w.identity a := by
  intro w x y
  have hsame : x.unspelled = y.unspelled :=
    (Workspace.follow_unspelled (s.byPlace cwd) h "").symm.trans
      (Workspace.follow_unspelled (s.byPlace cwd) rfl "")
  refine ⟨congrArg Logged.value hsame, ?_, fun a b => ?_, fun a => a.place_normal⟩
  · exact Diagnostic.map_gist_of_unspelled (congrArg Logged.log hsame)
  · exact Path.place_join_congr a.place_normal.symm b

/-! A file that includes itself, from a directory that is spelled with a detour. -/

/-- The text of the file. -/
def selfText : String := "---\ntask 1\n---\n---\ninclude a.md\n---\n"

/-- The file. -/
def selfIncluding : Shelf := .ofList [(⟨"/proj/a.md"⟩, selfText)]

theorem expand_selfIncluding (cwd : Path) (l : Location) :
    (selfIncluding.workspace cwd).expand ⟨"/proj"⟩ none [.inclusion ⟨["a.md"], l⟩] =
      ⟨[.bare ⟨[1], by decide, by decide⟩ ⟨"/proj/a.md", 1⟩],
        [⟨.error, some ⟨"/proj/a.md", 4⟩, .cyclicInclude ⟨"/proj/a.md"⟩⟩]⟩ := by
  have htarget : Path.join ⟨"/proj"⟩ ⟨"a.md"⟩ = ⟨"/proj/a.md"⟩ := rfl
  have hread : (selfIncluding.workspace cwd).read (Path.join ⟨"/proj"⟩ ⟨"a.md"⟩) = .ok selfText :=
    rfl
  have hblocks : readDocument "/proj/a.md" selfText =
      ⟨[.task (.bare ⟨[1], by decide, by decide⟩ ⟨"/proj/a.md", 1⟩),
        .inclusion ⟨["a.md"], ⟨"/proj/a.md", 4⟩⟩], []⟩ := rfl
  unfold Workspace.expand
  simp only [List.flatMap_cons, List.flatMap_nil, Block.steps, List.map_cons, List.map_nil,
    List.append_nil, Option.map_none, Option.toList_none]
  rw [Workspace.follow_of_ok _ _ List.not_mem_nil hread, Workspace.follow_nil, htarget, hblocks]
  simp only [List.flatMap_cons, List.flatMap_nil, Block.steps, List.map_cons, List.map_nil,
    List.append_nil, List.singleton_append]
  rw [Workspace.follow_task, Workspace.follow_of_mem _ _ (by rw [htarget]; exact List.mem_cons_self),
    Workspace.follow_nil, htarget]
  rfl

/-- The detour does not show in the lines of the record and the report. -/
theorem expand_respelled_detour :
    let w := selfIncluding.workspace ⟨"/"⟩
    let x := w.expand ⟨"/proj/./sub/.."⟩ none [.inclusion ⟨["a.md"], ⟨"<stdin>", 1⟩⟩]
    (⟨"/proj/./sub/.."⟩ : Path).place = (⟨"/proj"⟩ : Path).place ∧
      x.value.map (Record.relocate Location.unnamed) =
        [.bare ⟨[1], by decide, by decide⟩ ⟨"", 1⟩] ∧
      x.log.map Diagnostic.gist = [(.error, "cyclic-include", some 4)] := by
  intro w x
  have hplace : (⟨"/proj/./sub/.."⟩ : Path).place = (⟨"/proj"⟩ : Path).place := by decide
  obtain ⟨hvalue, hlog, -, -⟩ := expand_respelled selfIncluding ⟨"/"⟩ ⟨"/proj/./sub/.."⟩ ⟨"/proj"⟩
    none [.inclusion ⟨["a.md"], ⟨"<stdin>", 1⟩⟩] hplace
  rw [expand_selfIncluding] at hvalue hlog
  exact ⟨hplace, hvalue, hlog⟩

end Shelf

end TaskOutline
