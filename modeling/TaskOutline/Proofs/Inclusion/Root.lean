import TaskOutline.Proofs.Inclusion.Splice
import TaskOutline.Proofs.Load.Places
import TaskOutline.Proofs.Path.Parent

/-! # A document does not include itself

The place of the document is on the way to every step of its expansion, so that nothing
there is read in the course of it: a change of the text at that place changes nothing
(`Workspace.follow_of_read`).  An include line with the name of the document's own file
leads to that place when the path of the document is written with a directory, and is
then a report and nothing else (`Source.root_not_read_again`).

Where the path is a bare name, the directory that includes are looked up in is the working
directory, and the place on the way is that of the name alone.  The two do not meet, and
the file is read again (`Source.bare_root_read_again`).
-/
namespace TaskOutline

/-- What is put on a shelf changes nothing at other places. -/
theorem Shelf.read_insert_of_ne (s : Shelf) {path target : Path} (text : String)
    (h : path.place ≠ target.place) : (s.insert target text).read path = s.read path := by
  have hfind : ((target.place, text) :: s.files.filter fun file => file.1 ≠ target.place).find?
      (fun file => file.1 = path.place) = s.files.find? fun file => file.1 = path.place := by
    rw [List.find?_cons_of_neg (by simpa using h.symm), List.find?_filter]
    congr 1
    funext file
    by_cases hfile : file.1 = path.place
    · simp [hfile, h]
    · simp [hfile]
  unfold read insert
  rw [hfind]

namespace Workspace

/-- **What is kept at a place on the way does not matter.** -/
theorem follow_of_read {w w' : Workspace} (hidentity : w'.identity = w.identity) {place : Place}
    (hread : ∀ path, w.identity path ≠ place → w'.read path = w.read path) {dir : Path}
    {way : List Place} {steps : List Step} (hplace : place ∈ way) :
    w'.follow dir way steps = w.follow dir way steps := by
  fun_induction w.follow dir way steps with
  | case1 way => rw [follow_nil]; rfl
  | case2 way record rest ih =>
    rw [follow_task, ih hplace]
    ext1 <;> simp
  | case3 way path location rest target hway ih =>
    have hway' : w'.identity (dir.join path) ∈ way := hidentity ▸ hway
    rw [follow_of_mem _ _ hway', ih hplace]
    rfl
  | case4 way path location rest target hway reason hfail ih =>
    have hway' : w'.identity (dir.join path) ∉ way := hidentity ▸ hway
    have hfail' : w'.read (dir.join path) = .error reason :=
      (hread _ fun heq => hway (heq ▸ hplace)).trans hfail
    rw [follow_of_error _ _ hway' hfail', ih hplace]
    rfl
  | case5 way path location rest target hway text hok ih₁ ih₂ =>
    have hway' : w'.identity (dir.join path) ∉ way := hidentity ▸ hway
    have hok' : w'.read (dir.join path) = .ok text :=
      (hread _ fun heq => hway (heq ▸ hplace)).trans hok
    have hinside := ih₁ (readDocument target.text text).value (List.mem_cons_of_mem _ hplace)
    rw [follow_of_ok _ _ hway' hok', ih₂ hplace, hidentity]
    ext1 <;> simp [target, hinside]

/-- The place of the document itself is on the way to all that is expanded. -/
theorem expand_of_read {w w' : Workspace} (hidentity : w'.identity = w.identity) {root : Path}
    (hread : ∀ path, w.identity path ≠ w.identity root → w'.read path = w.read path) (dir : Path)
    (blocks : List Block) : w'.expand dir (some root) blocks = w.expand dir (some root) blocks := by
  unfold expand
  rw [hidentity]
  exact follow_of_read hidentity hread List.mem_cons_self

/-- **A path that leads back to the document is a report and nothing else.** -/
theorem expand_of_root {w : Workspace} {dir root : Path} {name : String}
    (hroot : w.identity (dir.join ⟨name⟩) = w.identity root) (before after : List Block)
    (above below : List String) (location : Location) :
    w.expand dir (some root)
        (before ++ .inclusion ⟨above ++ name :: below, location⟩ :: after) =
      w.expand dir (some root) (before ++ [.inclusion ⟨above, location⟩]) ++
        ⟨[], [⟨.error, some location, .cyclicInclude (dir.join ⟨name⟩)⟩]⟩ ++
        w.expand dir (some root) (.inclusion ⟨below, location⟩ :: after) := by
  have hsteps : (before ++ .inclusion ⟨above ++ name :: below, location⟩ :: after).flatMap
      Block.steps =
        (before ++ [Block.inclusion ⟨above, location⟩]).flatMap Block.steps ++
          .visit ⟨name⟩ location ::
            (Block.inclusion ⟨below, location⟩ :: after).flatMap Block.steps := by
    simp [Block.steps]
  have hway : w.identity (dir.join ⟨name⟩) ∈ (Option.map w.identity (some root)).toList :=
    List.mem_singleton.mpr hroot
  unfold expand
  rw [hsteps, follow_append, follow_of_mem _ _ hway]
  ext1 <;> simp

end Workspace

namespace Source

/-- A document that is read from a file. -/
def ofFile (path : Path) (text : String) : Source := { text := text, path := some path }

variable {p : Path} {text name : String} {cwd : Path}

/-- Included files are looked up in the directory of the document's file, or in the working
directory if the path of the file is written without one. -/
theorem includeDir_ofFile (p : Path) (text : String) (cwd : Path) :
    (∃ dir, p.parent? = some dir ∧ dir.text ≠ "" ∧ (ofFile p text).includeDir cwd = dir) ∨
      ¬ p.HasDirectory ∧ (ofFile p text).includeDir cwd = cwd := by
  cases hparent : p.parent? with
  | none =>
    have hdir : (ofFile p text).includeDir cwd = cwd := by
      simp [includeDir, ofFile, hparent]
    refine .inr ⟨?_, hdir⟩
    rintro ⟨dir, heq, -⟩
    cases hparent.symm.trans heq
  | some dir =>
    have hdir : (ofFile p text).includeDir cwd = if dir.text.isEmpty then cwd else dir := by
      simp [includeDir, ofFile, hparent]
    by_cases hempty : dir.text = ""
    · refine .inr ⟨?_, hdir.trans (if_pos (by simp [hempty]))⟩
      rintro ⟨dir', heq, hne⟩
      cases hparent.symm.trans heq
      exact hne hempty
    · exact .inl ⟨dir, rfl, hempty, hdir.trans (if_neg (by simp [hempty]))⟩

/-- The text that a shelf has at the place of the document is not part of the run. -/
theorem load_insert {target : Path} (htarget : target.place = p.place) (s : Shelf) (cwd : Path)
    (other : String) (prior : List Diagnostic) :
    (ofFile p text).load ((s.insert target other).workspace cwd) prior =
      (ofFile p text).load (s.workspace cwd) prior := by
  have hread : ∀ path, (s.workspace cwd).identity path ≠ (s.workspace cwd).identity p →
      ((s.insert target other).workspace cwd).read path = (s.workspace cwd).read path :=
    fun path hpath => s.read_insert_of_ne other fun heq => hpath (heq.trans htarget)
  have hidentity : ((s.insert target other).workspace cwd).identity = (s.workspace cwd).identity :=
    rfl
  have hrecords : (ofFile p text).records ((s.insert target other).workspace cwd) =
      (ofFile p text).records (s.workspace cwd) := by
    show (readDocument p.text text >>= fun blocks =>
        ((s.insert target other).workspace cwd).expand ((ofFile p text).includeDir cwd) (some p)
          blocks) =
      (readDocument p.text text >>= fun blocks =>
        (s.workspace cwd).expand ((ofFile p text).includeDir cwd) (some p) blocks)
    congr 1
    funext blocks
    exact Workspace.expand_of_read hidentity hread _ blocks
  unfold load
  rw [hrecords]

/-- **A document does not include itself.**  The path of the document ends in the name of
its file.  An include line with that name leads to the document, if the path is written with
a directory, and elsewhere if it is not and the working directory is given from the top.
With a directory, such a line is a report at its block, and what is expanded is what stands
before it and after it, with no record of its own.  The text that the shelf has at the
place of the document makes no difference to the run. -/
theorem root_not_read_again (p : Path) (text name : String) (s : Shelf) (cwd : Path)
    (hname : p.fileName? = some name) :
    let source := ofFile p text
    let w := s.workspace cwd
    let target := (source.includeDir cwd).join ⟨name⟩
    (p.HasDirectory → w.identity target = w.identity p) ∧
    (¬ p.HasDirectory → cwd.isAbsolute = true → w.identity target ≠ w.identity p) ∧
    (p.HasDirectory →
      (∀ before above below location after,
        (readDocument p.text text).value =
            before ++ .inclusion ⟨above ++ name :: below, location⟩ :: after →
          source.records w =
              ⟨[], (readDocument p.text text).log⟩ ++
                w.expand (source.includeDir cwd) (some p)
                  (before ++ [Block.inclusion ⟨above, location⟩]) ++
                ⟨[], [⟨.error, some location, .cyclicInclude target⟩]⟩ ++
                w.expand (source.includeDir cwd) (some p)
                  (.inclusion ⟨below, location⟩ :: after) ∧
            ⟨.error, some location, .cyclicInclude target⟩ ∈ (source.load w []).2) ∧
      ∀ other prior,
        source.load ((s.insert target other).workspace cwd) prior = source.load w prior) := by
  intro source w target
  have hmeets : p.HasDirectory → w.identity target = w.identity p := by
    rintro ⟨dir, hdir, hne⟩
    rcases includeDir_ofFile p text cwd with ⟨dir', hdir', -, hlook⟩ | ⟨hbare, -⟩
    · cases hdir.symm.trans hdir'
      show ((ofFile p text).includeDir cwd |>.join ⟨name⟩).place = p.place
      rw [hlook]
      exact Path.place_join_parent? hname hdir hne
    · exact absurd ⟨dir, hdir, hne⟩ hbare
  refine ⟨hmeets, fun hbare hcwd => ?_, fun hdirectory => ⟨?_, ?_⟩⟩
  · -- without a directory the name is looked up in the working directory
    rcases includeDir_ofFile p text cwd with ⟨dir, hdir, hne, -⟩ | ⟨-, hlook⟩
    · exact absurd ⟨dir, hdir, hne⟩ hbare
    · show ((ofFile p text).includeDir cwd |>.join ⟨name⟩).place ≠ p.place
      rw [hlook]
      exact Path.place_join_ne hname hbare hcwd
  · intro before above below location after hblocks
    have hrecords : source.records w =
        ⟨[], (readDocument p.text text).log⟩ ++
          w.expand (source.includeDir cwd) (some p)
            (before ++ [Block.inclusion ⟨above, location⟩]) ++
          ⟨[], [⟨.error, some location, .cyclicInclude target⟩]⟩ ++
          w.expand (source.includeDir cwd) (some p)
            (.inclusion ⟨below, location⟩ :: after) := by
      have hread : source.records w = (readDocument p.text text >>= fun blocks =>
          w.expand (source.includeDir cwd) (some p) blocks) := rfl
      rw [hread]
      ext1
      · rw [Logged.value_bind, hblocks, Workspace.expand_of_root (hmeets hdirectory)]
        simp
      · rw [Logged.log_bind, hblocks, Workspace.expand_of_root (hmeets hdirectory)]
        simp [target]
    refine ⟨hrecords, mem_load_of_mem_records ?_⟩
    rw [hrecords]
    simp
  · exact fun other prior => load_insert (hmeets hdirectory) s cwd other prior

/-! A text that includes the file that it stands in, which another text is kept for. -/

/-- The text. -/
def ownName : String := "---\ninclude tasks.md\n---\n"

/-- The text that is kept for the file. -/
def keptText : String := "---\ntask 1\n---\n"

theorem readDocument_ownName (origin : String) :
    readDocument origin ownName = ⟨[.inclusion ⟨["tasks.md"], ⟨origin, 1⟩⟩], []⟩ :=
  rfl

/-- With a directory before the name of the file, the text that is kept is not read. -/
theorem root_not_read_again_notes :
    Path.fileName? ⟨"notes/./tasks.md"⟩ = some "tasks.md" ∧
      Path.HasDirectory ⟨"notes/./tasks.md"⟩ ∧
      ⟨.error, some ⟨"notes/./tasks.md", 1⟩, .cyclicInclude ⟨"notes/tasks.md"⟩⟩ ∈
        ((ofFile ⟨"notes/./tasks.md"⟩ ownName).load
          ((Shelf.ofList [(⟨"/proj/notes/tasks.md"⟩, keptText)]).workspace ⟨"/proj"⟩) []).2 := by
  have hdirectory : Path.HasDirectory ⟨"notes/./tasks.md"⟩ := ⟨⟨"notes"⟩, rfl, by decide⟩
  obtain ⟨-, -, hreport⟩ := root_not_read_again ⟨"notes/./tasks.md"⟩ ownName "tasks.md"
    (Shelf.ofList [(⟨"/proj/notes/tasks.md"⟩, keptText)]) ⟨"/proj"⟩ rfl
  exact ⟨rfl, hdirectory, ((hreport hdirectory).1 [] [] [] ⟨"notes/./tasks.md", 1⟩ []
    (congrArg Logged.value (readDocument_ownName _))).2⟩

/-- **A document that is given by a bare name is read again.**  The place on the way is that
of the name, and the include line leads to the file in the working directory. -/
theorem bare_root_read_again :
    (ofFile ⟨"tasks.md"⟩ ownName).records
        ((Shelf.ofList [(⟨"/proj/tasks.md"⟩, keptText)]).workspace ⟨"/proj"⟩) =
      ⟨[.bare ⟨[1], by decide, by decide⟩ ⟨"/proj/tasks.md", 1⟩], []⟩ := by
  have hkept : readDocument "/proj/tasks.md" keptText =
      ⟨[.task (.bare ⟨[1], by decide, by decide⟩ ⟨"/proj/tasks.md", 1⟩)], []⟩ := rfl
  have hread : ((Shelf.ofList [(⟨"/proj/tasks.md"⟩, keptText)]).workspace ⟨"/proj"⟩).read
      (Path.join ⟨"/proj"⟩ ⟨"tasks.md"⟩) = .ok keptText := rfl
  have htarget : (Path.join ⟨"/proj"⟩ ⟨"tasks.md"⟩).text = "/proj/tasks.md" := rfl
  show (readDocument "tasks.md" ownName >>= fun blocks =>
    Workspace.expand _ ⟨"/proj"⟩ (some ⟨"tasks.md"⟩) blocks) = _
  rw [readDocument_ownName, Logged.silent_bind]
  unfold Workspace.expand
  simp only [List.flatMap_cons, List.flatMap_nil, Block.steps, List.map_cons, List.map_nil,
    List.append_nil]
  rw [Workspace.follow_of_ok _ _ (by decide) hread, Workspace.follow_nil, htarget, hkept]
  simp only [List.flatMap_cons, List.flatMap_nil, Block.steps, List.append_nil,
    Workspace.follow_task, Workspace.follow_nil]

end Source

end TaskOutline
