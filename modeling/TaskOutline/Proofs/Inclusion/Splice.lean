import Mathlib.Algebra.Order.Group.Multiset
import TaskOutline.Proofs.Document.Joined
import TaskOutline.Proofs.Document.Written
import TaskOutline.Proofs.Inclusion.Steps

/-! # An include block means the text of its file

Where a text includes a file, the text of the file could stand in its place: the same
records come of it, and the same problems are reported (`Workspace.splice_include`), but
for where they stand and for the order of the reports.  Only a report of a file that is
being expanded already would be lost, since the file is not expanded any more.

What comes of a text is compared by `Logged.Alike`.  Texts of whole sections are
expanded one after the other (`Workspace.recordsOf_append`), which leaves the include
block by itself; and that is read as the file is, with one more file being expanded,
which makes no difference where no file is refused for it (`Workspace.follow_of_subset`).
-/
namespace TaskOutline

/-! ## But for where it stands -/

/-- What is reported, without where. -/
def Diagnostic.content (d : Diagnostic) : Severity × Problem := (d.severity, d.problem)

namespace Logged

section Problems

variable {α β : Type}

/-- What is reported, each as often as it is. -/
def problems (x : Logged α) : Multiset (Severity × Problem) := ↑(x.log.map Diagnostic.content)

theorem problems_bind (x : Logged α) (f : α → Logged β) :
    (x >>= f).problems = x.problems + (f x.value).problems := by
  simp [problems]

theorem problems_append (x y : Logged (List α)) : (x ++ y).problems = x.problems + y.problems := by
  simp [problems]

theorem problems_relocate (f : Location → Location) (g : α → β) (x : Logged α) :
    (x.relocate f g).problems = x.problems := by
  unfold problems relocate
  rw [List.map_map]
  rfl

theorem forall_mem_problems {P : Problem → Prop} (x : Logged α) :
    (∀ c ∈ x.problems, P c.2) ↔ ∀ d ∈ x.log, P d.problem := by
  simp [problems, Diagnostic.content]

end Problems

/-- The same records in the same order, and the same problems as often, wherever they
stand. -/
structure Alike (x y : Logged (List Record)) : Prop where
  records : x.value.map Record.unplaced = y.value.map Record.unplaced
  problems : x.problems = y.problems

namespace Alike

variable {x y z x' y' : Logged (List Record)}

theorem refl (x : Logged (List Record)) : x.Alike x := ⟨rfl, rfl⟩

theorem symm (h : x.Alike y) : y.Alike x := ⟨h.records.symm, h.problems.symm⟩

theorem trans (hxy : x.Alike y) (hyz : y.Alike z) : x.Alike z :=
  ⟨hxy.records.trans hyz.records, hxy.problems.trans hyz.problems⟩

theorem append (hx : x.Alike x') (hy : y.Alike y') : (x ++ y).Alike (x' ++ y') where
  records := by
    rw [value_append, value_append, List.map_append, List.map_append, hx.records, hy.records]
  problems := by
    rw [problems_append, problems_append, hx.problems, hy.problems]

end Alike

end Logged

/-! ## Following steps -/

namespace Workspace

variable {w : Workspace} {dir : Path} {way : List Place}

/-- Steps are followed one after the other. -/
theorem follow_append (steps more : List Step) :
    w.follow dir way (steps ++ more) = w.follow dir way steps ++ w.follow dir way more := by
  induction steps with
  | nil =>
    rw [follow_nil]
    rfl
  | cons step rest ih =>
    cases step with
    | task record =>
      rw [List.cons_append, follow_task, follow_task, ih]
      rfl
    | visit path location =>
      by_cases hway : w.identity (dir.join path) ∈ way
      · rw [List.cons_append, follow_of_mem _ _ hway, follow_of_mem _ _ hway, ih]
        rfl
      cases hread : w.read (dir.join path) with
      | error reason =>
        rw [List.cons_append, follow_of_error _ _ hway hread, follow_of_error _ _ hway hread, ih]
        rfl
      | ok text =>
        rw [List.cons_append, follow_of_ok _ _ hway hread, follow_of_ok _ _ hway hread, ih]
        ext1 <;> simp

/-- Where a step stands makes no difference to what comes of it. -/
theorem alike_relocate_step (f : Location → Location) (step : Step) :
    (w.follow dir way [step.relocate f]).Alike (w.follow dir way [step]) := by
  cases step with
  | task record =>
    rw [Step.relocate, follow_task, follow_task]
    exact ⟨rfl, rfl⟩
  | visit path location =>
    rw [Step.relocate]
    by_cases hway : w.identity (dir.join path) ∈ way
    · rw [follow_of_mem _ _ hway, follow_of_mem _ _ hway]
      exact ⟨rfl, rfl⟩
    cases hread : w.read (dir.join path) with
    | error reason =>
      rw [follow_of_error _ _ hway hread, follow_of_error _ _ hway hread]
      exact ⟨rfl, rfl⟩
    | ok text =>
      rw [follow_of_ok _ _ hway hread, follow_of_ok _ _ hway hread]
      exact .refl _

theorem alike_relocate (f : Location → Location) (steps : List Step) :
    (w.follow dir way (steps.map (Step.relocate f))).Alike (w.follow dir way steps) := by
  induction steps with
  | nil => exact .refl _
  | cons step rest ih =>
    have hstep : (w.follow dir way [step.relocate f]).Alike (w.follow dir way [step]) :=
      alike_relocate_step f step
    have hcons := hstep.append ih
    rwa [← follow_append, ← follow_append] at hcons

/-- No file is refused for being expanded already. -/
def Unrefused {α : Type} (x : Logged α) : Prop :=
  ∀ d ∈ x.log, ∀ path, d.problem ≠ .cyclicInclude path

/-- What is refused in a part is refused in the whole. -/
theorem Unrefused.of_alike_append {x y z all : Logged (List Record)} (h : Unrefused all)
    (halike : all.Alike (x ++ y ++ z)) : Unrefused y := by
  have hproblems := (Logged.forall_mem_problems
    (P := fun problem => ∀ path, problem ≠ .cyclicInclude path) all).mpr h
  rw [halike.problems, Logged.problems_append, Logged.problems_append] at hproblems
  refine (Logged.forall_mem_problems (P := fun problem => ∀ path, problem ≠ .cyclicInclude path)
    y).mp fun c hc => hproblems c ?_
  exact Multiset.mem_add.mpr (.inl (Multiset.mem_add.mpr (.inr hc)))

/-- Where no step is refused, the same comes of `steps` with fewer files being expanded. -/
def Lightens (w : Workspace) (dir : Path) (way : List Place) (steps : List Step) : Prop :=
  ∀ less : List Place, (∀ place ∈ less, place ∈ way) → Unrefused (w.follow dir way steps) →
    w.follow dir less steps = w.follow dir way steps

theorem lightens (w : Workspace) (dir : Path) (way : List Place) (steps : List Step) :
    w.Lightens dir way steps := by
  fun_induction w.follow dir way steps with
  | case1 way =>
    intro less _ _
    rw [follow_nil, follow_nil]
  | case2 way record rest ih =>
    intro less hless hclean
    rw [follow_task] at hclean ⊢
    rw [follow_task, ih less hless hclean]
  | case3 way path location rest target hway ih =>
    intro less _ hclean
    rw [follow_of_mem _ _ hway] at hclean
    exact absurd rfl (hclean _ List.mem_cons_self _)
  | case4 way path location rest target hway reason hfail ih =>
    intro less hless hclean
    have hout : w.identity target ∉ less := fun h => hway (hless _ h)
    rw [follow_of_error _ _ hway hfail] at hclean ⊢
    have hrest := ih less hless fun d hd => hclean d (List.mem_cons_of_mem _ hd)
    rw [follow_of_error _ _ hout hfail, hrest]
  | case5 way path location rest target hway text hok ih₁ ih₂ =>
    intro less hless hclean
    have hout : w.identity (dir.join path) ∉ less := fun h => hway (hless _ h)
    have hinner : ∀ place ∈ w.identity (dir.join path) :: less,
        place ∈ w.identity (dir.join path) :: way :=
      fun place hplace => List.mem_cons.mpr ((List.mem_cons.mp hplace).imp_right (hless place))
    rw [follow_of_ok _ _ hway hok] at hclean ⊢
    have hfile := ih₁ (readDocument (dir.join path).text text).value _ hinner
      fun d hd => hclean d (List.mem_append_right _ (List.mem_append_left _ hd))
    have hrest := ih₂ less hless
      fun d hd => hclean d (List.mem_append_right _ (List.mem_append_right _ hd))
    rw [follow_of_ok _ _ hout hok, hrest]
    dsimp only
    rw [hfile]

/-- **Where no file is refused, fewer files being expanded make no difference.** -/
theorem follow_of_subset {less : List Place} {steps : List Step}
    (hless : ∀ place ∈ less, place ∈ way) (hclean : Unrefused (w.follow dir way steps)) :
    w.follow dir less steps = w.follow dir way steps :=
  w.lightens dir way steps less hless hclean

/-! ## Texts -/

/-- The records of a text with those of the files that it includes. -/
def recordsOf (w : Workspace) (dir : Path) (root : Option Path) (origin text : String) :
    Logged (List Record) := do
  let blocks ← readDocument origin text
  w.expand dir root blocks

section Texts

variable {root : Option Path} {origin origin' x y t p : String}

/-- The name of a text makes no difference to what comes of it. -/
theorem recordsOf_rename :
    (w.recordsOf dir root origin' t).Alike (w.recordsOf dir root origin t) := by
  have hsteps : (w.expand dir root (readDocument origin' t).value).Alike
      (w.expand dir root (readDocument origin t).value) := by
    rw [readDocument_rename origin origin' t]
    unfold expand Logged.relocate
    rw [Block.steps_relocate]
    exact alike_relocate _ _
  refine ⟨hsteps.records, ?_⟩
  unfold recordsOf
  rw [Logged.problems_bind, Logged.problems_bind, hsteps.problems,
    readDocument_rename origin origin' t, Logged.problems_relocate]

/-- **What comes of two texts is what comes of one and then of the other.** -/
theorem recordsOf_append (hx : Whole x) (hy : BeginsWithFence y) :
    (w.recordsOf dir root origin (x ++ y)).Alike
      (w.recordsOf dir root origin x ++ w.recordsOf dir root origin y) := by
  have hread := readDocument_append origin hx hy
  generalize hk : (Text.lines x.toList).length = k at hread
  have hsteps : (w.expand dir root (readDocument origin (x ++ y)).value).Alike
      (w.expand dir root (readDocument origin x).value ++
        w.expand dir root (readDocument origin y).value) := by
    rw [hread]
    unfold expand Logged.relocate
    rw [Logged.value_append, List.flatMap_append, Block.steps_relocate, follow_append]
    exact (Logged.Alike.refl _).append (alike_relocate _ _)
  refine ⟨hsteps.records, ?_⟩
  unfold recordsOf
  rw [Logged.problems_bind, hsteps.problems, hread, Logged.problems_append, Logged.problems_append,
    Logged.problems_append, Logged.problems_relocate, Logged.problems_bind, Logged.problems_bind]
  exact add_add_add_comm _ _ _ _

end Texts

end Workspace

/-! ## The block that includes a file -/

/-- A block that includes one file, as it is written. -/
def includeText (p : String) : String := "---\ninclude " ++ p ++ "\n---\n"

section IncludeText

variable {p : String}

theorem lines_includeText (h : IsLineValue p) :
    Text.lines (includeText p).toList =
      [] ++ (fenceLine :: linesOf [.inclusion p] ++ fenceLine :: []) := by
  have hwritable : ∀ f ∈ [Field.inclusion p], f.Writable := by simpa [Field.Writable] using h
  have hlined : Text.Lined ([] ++ (fenceLine :: linesOf [.inclusion p] ++ fenceLine :: [])) :=
    Record.lined_fenceLine (Record.lined_linesOf hwritable (Record.lined_fenceLine .nil))
  rw [← hlined.lines_flatten]
  refine congrArg Text.lines ?_
  simp [includeText, fenceLine, linesOf, Field.toList_line, Field.key, Key.text, Field.valueText]

/-- The lines of the front matter are no fences. -/
theorem plain_includeLine (h : IsLineValue p) : ∀ l ∈ linesOf [.inclusion p], isFence l = false :=
  Record.isFence_linesOf (by simpa [Field.Writable] using h)

theorem whole_includeText (h : IsLineValue p) : Whole (includeText p) where
  closed := by
    have hend : (includeText p).toList =
        ("---\ninclude " ++ p ++ "\n---").toList ++ ['\n'] := by
      simp [includeText]
    rw [hend]
    exact Text.closed_concat _
  paired := by
    rw [lines_includeText h, Layout.length_fences_paired (fun _ hl => absurd hl List.not_mem_nil)
      isFence_fenceLine (plain_includeLine h) isFence_fenceLine]
    rfl

theorem beginsWithFence_includeText (h : IsLineValue p) : BeginsWithFence (includeText p) := by
  intro l hl
  rw [lines_includeText h] at hl
  obtain rfl : fenceLine = l := Option.some.inj hl
  exact isFence_fenceLine

theorem ofText_includeText (h : IsLineValue p) :
    Layout.ofText (includeText p) = ⟨[], [⟨1, linesOf [.inclusion p], []⟩], none⟩ := by
  unfold Layout.ofText
  rw [lines_includeText h, Layout.outside_paired 1 (fun _ hl => absurd hl List.not_mem_nil)
    isFence_fenceLine (plain_includeLine h) isFence_fenceLine]
  rfl

/-- The section of an include block is read as its path. -/
theorem read_includeSection (origin : String) (n : Nat) (h : IsLineValue p) :
    Section.read origin ⟨n, linesOf [.inclusion p], []⟩ =
      ⟨some (.inclusion ⟨[p], ⟨origin, n⟩⟩), []⟩ := by
  have hwritable : ∀ f ∈ [Field.inclusion p], f.Writable := by simpa [Field.Writable] using h
  have hfields : readFields [] (itemsFrom origin (n + 1) [.inclusion p]) = ⟨[.inclusion p], []⟩ :=
    readFields_itemsFrom origin (n + 1) hwritable (List.nodup_singleton _)
      fun _ _ => List.not_mem_nil
  have hitems : readItems ⟨origin, n⟩ "" (itemsFrom origin (n + 1) [.inclusion p]) =
      ⟨some (.inclusion ⟨[p], ⟨origin, n⟩⟩), []⟩ := by
    show readInclusion ⟨origin, n⟩ (itemsFrom origin (n + 1) [.inclusion p]) = _
    unfold readInclusion
    rw [hfields]
    rfl
  have hblock : readBlock ⟨origin, n⟩ "" (entriesFrom origin (n + 1) [.inclusion p]) =
      ⟨some (.inclusion ⟨[p], ⟨origin, n⟩⟩), []⟩ := by
    refine readBlock_of_silent _ _ _ (filterMap_unknown?_entriesFrom _ _ _) ?_
    rw [filterMap_item?_entriesFrom, hitems]
  unfold Section.read
  dsimp only
  rw [readEntries_linesOf origin (n + 1) hwritable, Logged.silent_bind,
    show Section.notesText ⟨n, linesOf [.inclusion p], []⟩ = "" from rfl, hblock]
  rfl

theorem readDocument_includeText (origin : String) (h : IsLineValue p) :
    readDocument origin (includeText p) = ⟨[.inclusion ⟨[p], ⟨origin, 1⟩⟩], []⟩ := by
  unfold readDocument
  rw [ofText_includeText h]
  unfold Layout.read readSections
  rw [read_includeSection origin 1 h]
  rfl

end IncludeText

namespace Workspace

variable {w : Workspace} {dir : Path} {root : Option Path} {origin a b t p : String}

/-- **An include block by itself is read as its file**, where no file is refused. -/
theorem recordsOf_includeText (hp : IsLineValue p) (hread : w.read (dir.join ⟨p⟩) = .ok t)
    (hclean : Unrefused (w.recordsOf dir root origin (includeText p))) :
    w.recordsOf dir root origin (includeText p) = w.recordsOf dir root (dir.join ⟨p⟩).text t := by
  have hvisit : w.recordsOf dir root origin (includeText p) =
      w.follow dir (root.map w.identity).toList [.visit ⟨p⟩ ⟨origin, 1⟩] := by
    unfold recordsOf
    rw [readDocument_includeText origin hp, Logged.silent_bind]
    rfl
  rw [hvisit] at hclean ⊢
  have hout : w.identity (dir.join ⟨p⟩) ∉ (root.map w.identity).toList := by
    intro hway
    rw [follow_of_mem _ _ hway] at hclean
    exact absurd rfl (hclean _ List.mem_cons_self _)
  rw [follow_of_ok _ _ hout hread, follow_nil] at hclean ⊢
  -- the file is on the stack while its steps are followed, and need not be
  have hinside := follow_of_subset (fun _ hplace => List.mem_cons_of_mem _ hplace)
    fun d hd => hclean d (List.mem_append_right _ (List.mem_append_left _ hd))
  unfold recordsOf expand
  ext1 <;> simp [hinside]

/-- **An include block means the text of its file.** -/
theorem splice_include (w : Workspace) (dir : Path) (root : Option Path) (origin : String)
    (ha : Whole a) (hb : BeginsWithFence b) (ht : Whole t) (hfence : BeginsWithFence t)
    (hp : IsLineValue p) (hread : w.read (dir.join ⟨p⟩) = .ok t)
    (hclean : Unrefused (w.recordsOf dir root origin (a ++ includeText p ++ b))) :
    (w.recordsOf dir root origin (a ++ includeText p ++ b)).Alike
      (w.recordsOf dir root origin (a ++ t ++ b)) := by
  have hparts : ∀ {x : String}, Whole x → BeginsWithFence x →
      (w.recordsOf dir root origin (a ++ x ++ b)).Alike
        (w.recordsOf dir root origin a ++ w.recordsOf dir root origin x ++
          w.recordsOf dir root origin b) :=
    fun hx hxfence => (recordsOf_append (ha.append hx) hb).trans
      ((recordsOf_append ha hxfence).append (.refl _))
  have hinclude := hparts (whole_includeText hp) (beginsWithFence_includeText hp)
  have hfile : (w.recordsOf dir root origin (includeText p)).Alike
      (w.recordsOf dir root origin t) := by
    rw [recordsOf_includeText hp hread (hclean.of_alike_append hinclude)]
    exact recordsOf_rename
  exact (hinclude.trans (((Logged.Alike.refl _).append hfile).append (.refl _))).trans
    (hparts ht hfence).symm

/-! A text with a file that includes another one, and with a fence left over at its end. -/

/-- The text of the file that is included. -/
def chapterText : String := "---\ntask 2\n---\nNotes\n---\ninclude c.md\n---\n"

/-- The file, and the one that it includes. -/
def chapters : Workspace :=
  (Shelf.ofList [(⟨"/proj/b.md"⟩, chapterText), (⟨"/proj/c.md"⟩, "---\ntask 3\n\n---\n")]).workspace
    ⟨"/proj"⟩

/-- What comes of a text with this passage between its first task and its end. -/
def bookRecords (passage : String) : Logged (List Record) :=
  chapters.recordsOf ⟨"/proj"⟩ (some ⟨"/proj/tasks.md"⟩) "/proj/tasks.md"
    ("---\ntask 1\n---\n" ++ passage ++ "---\ntask 4")

theorem log_bookRecords :
    (bookRecords (includeText "b.md")).log =
      [unterminatedAt "/proj/tasks.md" 7,
        ⟨.warning, some ⟨"/proj/c.md", 3⟩, .ignored .blankLine⟩] := by
  have hbook : readDocument "/proj/tasks.md"
      ("---\ntask 1\n---\n" ++ includeText "b.md" ++ "---\ntask 4") =
      ⟨[.task (.bare ⟨[1], by decide, by decide⟩ ⟨"/proj/tasks.md", 1⟩),
        .inclusion ⟨["b.md"], ⟨"/proj/tasks.md", 4⟩⟩], [unterminatedAt "/proj/tasks.md" 7]⟩ := rfl
  have hchapter : readDocument "/proj/b.md" chapterText =
      ⟨[.task { Record.bare ⟨[2], by decide, by decide⟩ ⟨"/proj/b.md", 1⟩ with notes := "Notes\n" },
        .inclusion ⟨["c.md"], ⟨"/proj/b.md", 5⟩⟩], []⟩ := rfl
  have hlast : readDocument "/proj/c.md" "---\ntask 3\n\n---\n" =
      ⟨[.task (.bare ⟨[3], by decide, by decide⟩ ⟨"/proj/c.md", 1⟩)],
        [⟨.warning, some ⟨"/proj/c.md", 3⟩, .ignored .blankLine⟩]⟩ := rfl
  have hfirst : chapters.read (Path.join ⟨"/proj"⟩ ⟨"b.md"⟩) = .ok chapterText := rfl
  have hsecond : chapters.read (Path.join ⟨"/proj"⟩ ⟨"c.md"⟩) = .ok "---\ntask 3\n\n---\n" := rfl
  have htarget : (Path.join ⟨"/proj"⟩ ⟨"b.md"⟩).text = "/proj/b.md" := rfl
  have htarget' : (Path.join ⟨"/proj"⟩ ⟨"c.md"⟩).text = "/proj/c.md" := rfl
  unfold bookRecords recordsOf expand
  rw [hbook, Logged.log_bind]
  simp only [List.flatMap_cons, List.flatMap_nil, Block.steps, List.map_cons, List.map_nil,
    List.cons_append, List.nil_append, follow_task]
  rw [follow_of_ok _ _ (by decide) hfirst, follow_nil, htarget, hchapter]
  simp only [List.flatMap_cons, List.flatMap_nil, Block.steps, List.map_cons, List.map_nil,
    List.cons_append, List.nil_append, follow_task]
  rw [follow_of_ok _ _ (by decide) hsecond, follow_nil, htarget', hlast]
  simp only [List.flatMap_cons, List.flatMap_nil, Block.steps, List.append_nil, follow_task,
    follow_nil]

/-- The book that includes the chapter is like the book with the chapter in it. -/
theorem splice_include_book :
    Unrefused (bookRecords (includeText "b.md")) ∧
      (bookRecords (includeText "b.md")).Alike (bookRecords chapterText) := by
  have hclean : Unrefused (bookRecords (includeText "b.md")) := by
    intro d hd path hproblem
    rw [log_bookRecords] at hd
    rcases List.mem_cons.mp hd with rfl | hd
    · cases hproblem
    · rw [List.mem_singleton.mp hd] at hproblem
      cases hproblem
  have hfence : ∀ l, some fenceLine = some l → isFence l = true := by
    intro l hl
    rw [← Option.some.inj hl]
    exact isFence_fenceLine
  exact ⟨hclean, splice_include chapters ⟨"/proj"⟩ (some ⟨"/proj/tasks.md"⟩) "/proj/tasks.md"
    ⟨.inr rfl, rfl⟩ hfence ⟨.inr rfl, rfl⟩ hfence (Text.IsWord.isLineValue (Text.isWord_of_all rfl))
    rfl hclean⟩

end Workspace

end TaskOutline
