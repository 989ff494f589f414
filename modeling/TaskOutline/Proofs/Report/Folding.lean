import TaskOutline.Proofs.Load.RoundTrip
import TaskOutline.Proofs.Outline.Inheritance
import TaskOutline.Proofs.Outline.Walk
import TaskOutline.Proofs.Text.OneLine

/-! # A folded table of contents

The table of contents has a line for every node, in the order of the nodes.  Folding takes
away lines and puts a mark at the end of others, and does nothing else.

A node stands for all that lies under it when the nodes one level under it are all done.
The walk does not go down there, so that it comes to those nodes that lie under none of this
kind; and of these the ones with children get the mark.  What the walk asks of a node and
what the mark asks of it are the same (`Outline.Coherent.isFoldable_iff`).
-/
namespace TaskOutline

/-! ## Where the table is folded -/

namespace Outline

variable (t : Outline) (n : Node)

/-- The nodes one level under a node, in order. -/
def below : List Node := t.nodes.filter fun c => c.id.parent? = some n.id

/-- All that lies one level under the node is done. -/
def AllDone : Prop := ∀ c ∈ t.below n, c.status = .done

/-- The node lies somewhere under one whose children are all done. -/
def FoldedAway : Prop :=
  ∃ m ∈ t.nodes, m.id.segments <+: n.id.segments ∧ m.id ≠ n.id ∧ t.AllDone m

instance : Decidable (t.AllDone n) := inferInstanceAs (Decidable (∀ c ∈ t.below n, _))

instance : Decidable (t.FoldedAway n) := inferInstanceAs (Decidable (∃ m ∈ t.nodes, _))

variable {t n}

/-- The children of a node lead to the nodes one level under it. -/
theorem Coherent.filterMap_children (h : t.Coherent) (hn : n ∈ t.nodes) :
    n.children.filterMap t.find? = t.below n := by
  rw [h.children n hn, childrenOf, ids, List.filter_map, List.filterMap_map, below]
  refine (List.filterMap_congr fun c hc => ?_).trans List.filterMap_some
  exact find?_eq_some_iff.mpr ⟨List.mem_of_mem_filter hc, rfl⟩

theorem Coherent.length_children (h : t.Coherent) (hn : n ∈ t.nodes) :
    n.children.length = (t.below n).length := by
  rw [h.children n hn, childrenOf, ids, List.filter_map, List.length_map]
  rfl

/-- **A node is folded when it has children and they are all done.** -/
theorem Coherent.isFoldable_iff (h : t.Coherent) (hn : n ∈ t.nodes) :
    t.isFoldable n = true ↔ t.below n ≠ [] ∧ t.AllDone n := by
  have hempty : n.children.isEmpty = (t.below n).isEmpty := by
    rw [Bool.eq_iff_iff, List.isEmpty_iff_length_eq_zero, List.isEmpty_iff_length_eq_zero,
      h.length_children hn]
  unfold isFoldable
  rw [h.filterMap_children hn, hempty]
  simp [AllDone, Node.isComplete, Status.isComplete]

/-- Above a node there is one level with the node, or with another one above it. -/
theorem Coherent.below_ne_nil (h : t.Coherent) {m : Node} (hn : n ∈ t.nodes)
    (hbegins : m.id.segments <+: n.id.segments) (hne : m.id ≠ n.id) : t.below m ≠ [] := by
  have hproper : m.id.segments ≠ n.id.segments := fun heq => hne (TaskId.ext heq)
  obtain ⟨c, hc, hcn⟩ := TaskId.exists_directlyUnder hbegins hproper
  obtain ⟨k, hk, rfl⟩ := List.mem_map.mp (h.closed n.id (List.mem_map_of_mem hn) c hcn)
  refine List.ne_nil_of_mem (List.mem_filter.mpr ⟨hk, ?_⟩)
  exact decide_eq_true (TaskId.parent?_eq_some_iff.mpr hc)

/-- **A walk that does not go down at folded nodes comes to all that is not folded away.** -/
theorem Coherent.reaches_iff (h : t.Coherent) (hn : n ∈ t.nodes) :
    t.Reaches (fun m => !t.isFoldable m) n.id ↔ ¬ t.FoldedAway n := by
  constructor
  · rintro hreach ⟨m, hm, hbegins, hne, hdone⟩
    have hopen : t.isFoldable m = false := by simpa using hreach m hm hbegins hne
    have hfold := (h.isFoldable_iff hm).mpr ⟨h.below_ne_nil hn hbegins hne, hdone⟩
    rw [hopen] at hfold
    cases hfold
  · intro haway m hm hbegins hne
    by_contra hfold
    obtain ⟨-, hdone⟩ := (h.isFoldable_iff hm).mp (by simpa using hfold)
    exact haway ⟨m, hm, hbegins, hne, hdone⟩

end Outline

/-! ## The lines -/

theorem lines_unlines {ls : List String} (h : ∀ l ∈ ls, OneLine l) :
    Text.lines (unlines ls).toList = ls.map fun l => (endLine l).toList := by
  induction ls with
  | nil => rfl
  | cons l ls ih =>
    obtain ⟨hl, hls⟩ := List.forall_mem_cons.mp h
    have hchars : (unlines (l :: ls)).toList = l.toList ++ '\n' :: (unlines ls).toList := by
      simp [unlines, endLine]
    rw [hchars, Text.lines_line_append hl, ih hls, List.map_cons, endLine, String.toList_append]
    rfl

namespace Contents

/-- The line of a node, where nothing is folded. -/
def line (t : Outline) (g : Dependencies) (n : Node) : String := entry t g n.id.depth n

variable {t : Outline} {g : Dependencies} {n : Node}

/-- Two blanks for each level. -/
theorem toList_indent (depth : Nat) :
    (String.join (List.replicate depth "  ")).toList = List.replicate (2 * depth) ' ' := by
  have htwo : "  ".toList = List.replicate 2 ' ' := by decide
  rw [String.toList_join]
  induction depth with
  | zero => rfl
  | succ depth ih =>
    rw [List.replicate_succ, List.flatMap_cons, ih, htwo, ← List.replicate_add, Nat.mul_succ,
      Nat.add_comm]

/-- A line is further in by two blanks for each level. -/
theorem line_indented (t : Outline) (g : Dependencies) (n : Node) :
    ∃ rest, (line t g n).toList =
      List.replicate (2 * (n.id.segments.length - 1)) ' ' ++ "- ".toList ++ rest := by
  unfold line entry
  simp only [String.toList_append, toList_indent, List.append_assoc]
  exact ⟨_, rfl⟩

/-- The lines of all nodes, where nothing is folded. -/
theorem entries_unfolded (h : t.Coherent) (g : Dependencies) :
    entries t g false = t.nodes.map (line t g) := by
  have hall : ∀ n ∈ t.nodes, t.Reaches (fun _ => true) n.id := fun _ _ _ _ _ _ => rfl
  unfold entries
  simp only [Bool.false_and, Bool.not_false, Bool.false_eq_true, if_false, String.append_empty]
  rw [h.walk_eq_filter, List.filter_eq_self.mpr (by simpa using hall), List.map_map]
  rfl

/-- What stands at the end of a line in the folded table. -/
def mark (t : Outline) (n : Node) : String :=
  if t.below n ≠ [] ∧ t.AllDone n then " (+" ++ natText (t.below n).length ++ " folded)" else ""

/-- **Folding takes away the lines of what is folded away, and marks lines.** -/
theorem entries_folded (h : t.Coherent) (g : Dependencies) :
    entries t g true =
      (t.nodes.filter fun n => ¬ t.FoldedAway n).map fun n => line t g n ++ mark t n := by
  have hkept : (t.nodes.filter fun n => t.Reaches (fun m => !t.isFoldable m) n.id) =
      t.nodes.filter fun n => ¬ t.FoldedAway n :=
    List.filter_congr fun n hn => by simp only [h.reaches_iff hn]
  unfold entries
  simp only [Bool.true_and]
  rw [h.walk_eq_filter, hkept, List.map_map]
  refine List.map_congr_left fun n hmem => ?_
  have hn : n ∈ t.nodes := List.mem_of_mem_filter hmem
  show line t g n ++ _ = _
  rw [mark, foldMark, h.length_children hn]
  by_cases hfold : t.isFoldable n = true
  · rw [if_pos hfold, if_pos ((h.isFoldable_iff hn).mp hfold)]
  · rw [if_neg hfold, if_neg fun hdone => hfold ((h.isFoldable_iff hn).mpr hdone)]

/-! ## One line for one node -/

theorem oneLine_statusText (t : Outline) (g : Dependencies) (n : Node) :
    OneLine (statusText t g n) := by
  have hstatus : ∀ s : Status, OneLine s.text := fun s => .of_isWord s.isWord_text
  have hdate : ∀ d : Date, OneLine d.text := fun d => .of_isWord d.isWord_text
  have hon : OneLine " on " ∧ OneLine " by " ∧ OneLine " due by " ∧ OneLine ", " := by
    refine ⟨?_, ?_, ?_, ?_⟩ <;> exact .of_chars (by decide)
  obtain ⟨hon, hby, hdue, hcomma⟩ := hon
  unfold statusText
  split
  · cases g.blockers t n.id with
    | nil => exact hstatus _
    | cons b bs =>
      refine oneLine_append.mpr ⟨oneLine_append.mpr ⟨hstatus _, hon⟩, hcomma.intercalate ?_⟩
      intro w hw
      obtain ⟨m, -, rfl⟩ := List.mem_map.mp hw
      exact m.id.oneLine_text
  · simp [hstatus, hdate, hby]
  · simp [hstatus, hdate, hdue]
  · exact hstatus _

theorem oneLine_line (hheading : OneLine n.heading) : OneLine (line t g n) := by
  have hindent : OneLine (String.join (List.replicate n.id.depth "  ")) := by
    unfold OneLine
    rw [toList_indent]
    simp
  have hmarker : ∀ s : Status, OneLine s.marker := by
    intro s
    cases s <;> exact .of_chars (by decide)
  have hpriority : OneLine (priorityText n) := by
    unfold priorityText
    cases n.priority with
    | none => exact .of_chars (by decide)
    | some p => exact oneLine_append.mpr ⟨.of_chars (by decide), .of_isWord p.isWord_text⟩
  have hprogress : OneLine (progressText t g n) := by
    unfold progressText
    split
    · exact .of_chars (by decide)
    · simp only [oneLine_append, oneLine_natText, and_true]
      refine ⟨⟨?_, ?_⟩, ?_⟩ <;> exact .of_chars (by decide)
  have hseparators : OneLine "- " ∧ OneLine " " ∧ OneLine ": " := by
    refine ⟨?_, ?_, ?_⟩ <;> exact .of_chars (by decide)
  unfold line entry
  simp [hindent, hmarker, hheading, hpriority, hprogress, hseparators, oneLine_statusText]

theorem oneLine_mark (t : Outline) (n : Node) : OneLine (mark t n) := by
  have hsigns : OneLine " (+" ∧ OneLine " folded)" ∧ OneLine "" := by
    refine ⟨?_, ?_, ?_⟩ <;> exact .of_chars (by decide)
  unfold mark
  split <;> simp [hsigns]

end Contents

namespace Source

variable {source : Source} {w : Workspace} {prior : List Diagnostic} {doc : Document}
  {log : List Diagnostic} {n : Node}

/-- What stands after the identifier of a node in a loaded document fits on its line. -/
theorem oneLine_heading_of_load (h : source.load w prior = (some doc, log))
    (hn : n ∈ doc.outline.nodes) : OneLine n.heading := by
  obtain ⟨-, rfl, -, -⟩ := load_eq_some h
  have hlabel : ∀ label, n.label? = some label → OneLine label := by
    intro label hlabel
    obtain ⟨r, hr, hlabelled⟩ := Option.bind_eq_some_iff.mp hlabel
    have hentry : (n.id, some r) ∈ (Outline.ofRecords (source.records w).value).entries :=
      List.mem_map.mpr ⟨n, hn, by rw [hr]⟩
    have hmem : r ∈ (source.records w).value :=
      List.mem_of_find?_eq_some (Outline.mem_entries_ofRecords.mp hentry)
    have hwritable : r.Writable := source.forall_mem_records (fun _ _ _ => writable_of_read) w r hmem
    exact (hwritable.label label hlabelled).oneLine
  have hblank : OneLine " " := .of_chars (by decide)
  unfold Node.heading
  cases hl : n.label? with
  | none => exact n.id.oneLine_text
  | some label => simp [hlabel label hl, hblank]

theorem coherent_of_load (h : source.load w prior = (some doc, log)) : doc.outline.Coherent := by
  obtain ⟨-, rfl, -, -⟩ := load_eq_some h
  exact Outline.coherent_ofRecords _

end Source

namespace Contents

/-- The lines above those of the nodes. -/
def titleLines : List String := ["# Table of Contents", ""]

/-- The text of the table has its lines and no others, where each fits on a line. -/
theorem lines_text {t : Outline} {g : Dependencies} {fold : Bool}
    (h : ∀ l ∈ entries t g fold, OneLine l) :
    Text.lines (text t g fold).toList =
      (titleLines ++ entries t g fold).map fun l => (endLine l).toList := by
  show Text.lines (unlines (titleLines ++ entries t g fold)).toList = _
  refine lines_unlines fun l hl => ?_
  rcases List.mem_append.mp hl with htitle | hentry
  · rcases List.mem_pair.mp htitle with rfl | rfl
    · exact .of_chars (by decide)
    · exact .of_chars (by decide)
  · exact h l hentry

/-- **Folding takes away whole subtrees and does nothing else.**  The table of contents of a
loaded document, not folded, has a line for each node below its title, in the order of the
identifiers and further in by two blanks for each level.  The folded one has the same lines
without those of the nodes that lie under a node whose children are all done.  Of the lines
that are left, those of nodes with children that are all done have the number of children at
their end. -/
theorem fold_deletes_subtrees (source : Source) (w : Workspace) (prior : List Diagnostic)
    (doc : Document) (log : List Diagnostic) (h : source.load w prior = (some doc, log)) :
    let t := doc.outline
    let g := doc.dependencies
    (t.nodes.map Node.id).Pairwise (· < ·) ∧
    (∀ n ∈ t.nodes, ∃ rest, (line t g n).toList =
      List.replicate (2 * (n.id.segments.length - 1)) ' ' ++ "- ".toList ++ rest) ∧
    Text.lines (text t g false).toList =
      (titleLines ++ t.nodes.map (line t g)).map (fun l => (endLine l).toList) ∧
    Text.lines (text t g true).toList =
      (titleLines ++ (t.nodes.filter fun n => ¬ t.FoldedAway n).map fun n =>
        line t g n ++
          if t.below n ≠ [] ∧ t.AllDone n then " (+" ++ natText (t.below n).length ++ " folded)"
          else "").map (fun l => (endLine l).toList) := by
  intro t g
  have hcoherent : t.Coherent := Source.coherent_of_load h
  have hline : ∀ n ∈ t.nodes, OneLine (line t g n) :=
    fun n hn => oneLine_line (Source.oneLine_heading_of_load h hn)
  refine ⟨t.ascending_ids, fun n _ => line_indented t g n, ?_, ?_⟩
  · rw [← entries_unfolded hcoherent]
    refine lines_text fun l hl => ?_
    rw [entries_unfolded hcoherent] at hl
    obtain ⟨n, hn, rfl⟩ := List.mem_map.mp hl
    exact hline n hn
  · show _ = (titleLines ++ (t.nodes.filter fun n => ¬ t.FoldedAway n).map fun n =>
      line t g n ++ mark t n).map _
    rw [← entries_folded hcoherent]
    refine lines_text fun l hl => ?_
    rw [entries_folded hcoherent] at hl
    obtain ⟨n, hn, rfl⟩ := List.mem_map.mp hl
    exact oneLine_append.mpr ⟨hline n (List.mem_of_mem_filter hn), oneLine_mark t n⟩

/-! A task with one that is done under it, and under that one another that is not. -/

/-- The tasks, with one beside them. -/
def nestedTasks : Source :=
  .ofStdin "---\ntask 1\n---\n---\ntask 1.1\nstatus done\n---\n---\ntask 1.1.1\n---\n---\ntask 2\n---\n"

/-- Their records. -/
def nestedRecords : List Record :=
  [.bare .first ⟨"<stdin>", 1⟩,
    { Record.bare .firstUnderFirst ⟨"<stdin>", 4⟩ with status := some .done },
    .bare ⟨[1, 1, 1], by decide, by decide⟩ ⟨"<stdin>", 8⟩,
    .bare .second ⟨"<stdin>", 11⟩]

theorem load_nestedTasks (w : Workspace) :
    let t := Outline.ofRecords nestedRecords
    nestedTasks.load w [] =
      (some ⟨t, (Dependencies.ofOutline t).value⟩, Dependencies.cycleWarnings t) := by
  have hread : readDocument nestedTasks.origin nestedTasks.text =
      ⟨nestedRecords.map .task, []⟩ := rfl
  exact Source.load_of_tasks hread (List.cons_ne_nil _ _) rfl (by decide +kernel)

/-- Two of the four lines are left. -/
theorem fold_deletes_subtrees_nested :
    let w := Shelf.empty.workspace ⟨"."⟩
    ∃ doc log, nestedTasks.load w [] = (some doc, log) ∧
      Text.lines (text doc.outline doc.dependencies true).toList =
        ["# Table of Contents\n", "\n", "- [ ] 1: TODO (+1 folded)\n", "- [ ] 2: TODO\n"].map
          String.toList := by
  intro w
  obtain ⟨-, -, -, hfolded⟩ := fold_deletes_subtrees nestedTasks w [] _ _ (load_nestedTasks w)
  refine ⟨_, _, load_nestedTasks w, hfolded.trans ?_⟩
  decide +kernel

end Contents

end TaskOutline
