import Mathlib.Data.List.Basic
import TaskOutline.Proofs.Load.Problems
import TaskOutline.Proofs.Outline.Reach
import TaskOutline.Proofs.Property.Values
import TaskOutline.Report.Contents

/-! # References and what is made of them

A record names the tasks that its task depends on.  What is reported about them, what a
task is taken to depend on and what it waits for are told here by the records alone.

In a document that has been loaded every reference leads to a task.  So each task depends
on all that its record names, and what the table of contents counts as done makes up,
with what the task waits for, the whole number.
-/
namespace TaskOutline

/-- The record of a node names a task, whether or not there is one. -/
def Outline.Names (t : Outline) (a b : TaskId) : Prop :=
  ∃ n ∈ t.nodes, n.id = a ∧ ∃ r, n.record = some r ∧ b ∈ r.depends

namespace Dependencies

variable {t : Outline} {a b id : TaskId} {n : Node}

/-! ## References -/

theorem mem_danglingPairs_iff :
    (a, b) ∈ danglingPairs t ↔ t.Names a b ∧ ∀ m ∈ t.nodes, m.id ≠ b := by
  rw [mem_danglingPairs_iff_contains, ← Bool.not_eq_true, contains_iff_mem]
  simp only [Outline.Names, Node.mem_depends_iff, not_exists, not_and, ne_eq]

theorem dependsOn_iff : t.DependsOn a b ↔ t.Names a b ∧ ∃ m ∈ t.nodes, m.id = b := by
  constructor
  · rintro ⟨n, hn, m, hm, ha, hb, hd⟩
    exact ⟨⟨n, hn, ha, Node.mem_depends_iff.mp hd⟩, m, hm, hb⟩
  · rintro ⟨⟨n, hn, ha, hd⟩, m, hm, hb⟩
    exact ⟨n, hn, m, hm, ha, hb, Node.mem_depends_iff.mpr hd⟩

/-- A task depends on the declared dependencies of its node that have nodes. -/
theorem of_node (hn : n ∈ t.nodes) :
    (ofOutline t).value.of n.id = n.depends.filter t.contains := by
  refine Ascending.ext (ascending_of _ _) ((ascending_depends n).filter _) fun b => ?_
  rw [mem_of_iff, List.mem_filter, contains_iff_mem]
  constructor
  · rintro ⟨n', hn', m, hm, hid, hmid, hb⟩
    obtain rfl : n' = n := List.inj_on_of_nodup_map t.ids_nodup hn' hn hid
    exact ⟨hb, m, hm, hmid⟩
  · rintro ⟨hb, m, hm, hmid⟩
    exact ⟨n, hn, m, hm, rfl, hmid, hb⟩

theorem index?_ofOutline_iff {i : Nat} :
    (ofOutline t).value.index? id = some i ↔ (ofOutline t).value.ids[i]? = some id := by
  rw [index?_ofOutline, index?_bare_iff, ids_ofOutline]

/-- The edges lead to a task from those that its record names. -/
theorem mem_edges_iff_names {i j : Nat} :
    (i, j) ∈ (ofOutline t).value.edges ↔
      ∃ a b, (ofOutline t).value.ids[i]? = some b ∧ (ofOutline t).value.ids[j]? = some a ∧
        t.Names a b := by
  simp only [mem_edges_ofOutline, ids_ofOutline, Node.mem_depends_iff]
  constructor
  · rintro ⟨n, hn, b, hb, hi, hj⟩
    exact ⟨n.id, b, hi, hj, n, hn, rfl, hb⟩
  · rintro ⟨_, b, hi, hj, n, hn, rfl, hb⟩
    exact ⟨n, hn, b, hb, hi, hj⟩

/-- The edges to a task may be gone through in any order. -/
theorem of_eq_sorted {g : Dependencies} {i : Nat} {found : List Nat} (hi : g.index? id = some i)
    (hfound : found.Perm (g.incoming i)) : g.of id = g.sorted found := by
  rw [of, hi]
  exact sorted_congr fun _ => hfound.mem_iff.symm

/-! ## What a task waits for -/

/-- Identifiers of nodes lead to nodes with these identifiers. -/
theorem map_id_filterMap_find? {ids : List TaskId} (h : ∀ id ∈ ids, ∃ m ∈ t.nodes, m.id = id) :
    (ids.filterMap t.find?).map Node.id = ids := by
  induction ids with
  | nil => rfl
  | cons id ids ih =>
    obtain ⟨⟨m, hm, hid⟩, hids⟩ := List.forall_mem_cons.mp h
    rw [List.filterMap_cons_some (Outline.find?_eq_some_iff.mpr ⟨hm, hid⟩), List.map_cons, hid,
      ih hids]

/-- The nodes that a task depends on, in order. -/
theorem map_id_nodes (t : Outline) (id : TaskId) :
    (((ofOutline t).value.of id).filterMap t.find?).map Node.id = (ofOutline t).value.of id :=
  map_id_filterMap_find? fun _ hd => (dependsOn_iff.mp (mem_of_iff.mp hd)).2

theorem mem_blockers_iff {g : Dependencies} :
    n ∈ g.blockers t id ↔ n ∈ t.nodes ∧ n.id ∈ g.of id ∧ n.status ≠ .done := by
  have hwaits : (!n.isComplete) = true ↔ n.status ≠ .done := by
    simp [Node.isComplete, Status.isComplete]
  rw [blockers, List.mem_filter, hwaits, List.mem_filterMap, ← and_assoc]
  refine and_congr_left fun _ => ?_
  constructor
  · rintro ⟨d, hd, hfind⟩
    obtain ⟨hn, rfl⟩ := Outline.find?_eq_some_iff.mp hfind
    exact ⟨hn, hd⟩
  · rintro ⟨hn, hd⟩
    exact ⟨n.id, hd, Outline.find?_eq_some_iff.mpr ⟨hn, rfl⟩⟩

theorem blockers_sublist (t : Outline) (id : TaskId) :
    (((ofOutline t).value.blockers t id).map Node.id).Sublist ((ofOutline t).value.of id) := by
  have hnodes : ((ofOutline t).value.blockers t id).Sublist
      (((ofOutline t).value.of id).filterMap t.find?) := List.filter_sublist
  exact map_id_nodes t id ▸ hnodes.map Node.id

/-- What is done and what a task waits for is all that it depends on. -/
theorem finished_add_blockers (t : Outline) (id : TaskId) :
    ((ofOutline t).value.finished t id).length + ((ofOutline t).value.blockers t id).length =
      ((ofOutline t).value.of id).length := by
  have hlength := congrArg List.length (map_id_nodes t id)
  rw [List.length_map] at hlength
  rw [← hlength, finished, blockers]
  exact (List.length_eq_length_filter_add Node.isComplete).symm

end Dependencies

/-! ## Loaded documents -/

namespace Source

variable {source : Source} {w : Workspace} {prior : List Diagnostic} {doc : Document}
  {log : List Diagnostic} {n : Node}

theorem dependencies_of_load (h : source.load w prior = (some doc, log)) :
    doc.dependencies = (Dependencies.ofOutline doc.outline).value := by
  obtain ⟨-, rfl, -, -⟩ := load_eq_some h
  exact Dependencies.value_check _

/-- Every reference of a loaded document leads to a task. -/
theorem declared_of_load (h : source.load w prior = (some doc, log)) (hn : n ∈ doc.outline.nodes) :
    doc.dependencies.of n.id = n.depends := by
  rw [dependencies_of_load h, Dependencies.of_node hn]
  refine List.filter_eq_self.mpr fun d hd => ?_
  by_contra hmissing
  have hpair : (n.id, d) ∈ Dependencies.danglingPairs doc.outline :=
    Dependencies.mem_danglingPairs_iff.mpr ⟨⟨n, hn, rfl, Node.mem_depends_iff.mp hd⟩,
      fun m hm hid => hmissing (Dependencies.contains_iff_mem.mpr ⟨m, hm, hid⟩)⟩
  obtain ⟨-, rfl, rfl, hclean⟩ := load_eq_some h
  -- the report about the reference would be an error
  have hreport : Dependencies.nodeReport (Outline.ofRecords (source.records w).value) (n.id, d) ∈
      source.completeLog w prior := by
    rw [completeLog, Dependencies.log_check, Dependencies.log_eq_map]
    exact List.mem_append_right _ (List.mem_append_left _ (List.mem_map_of_mem hpair))
  exact absurd (hasErrors_eq_false_iff.mp hclean _ hreport) (by simp [Diagnostic.isError,
    Dependencies.nodeReport])

end Source

/-! ## The table of contents -/

/-- Texts that end in a piece after a separator have the same separator and the same piece,
where the pieces are without separators. -/
theorem Text.eq_of_append_cons_eq {p : Char → Bool} {xs ys ds es : List Char} {c d : Char}
    (hds : ∀ x ∈ ds, p x = true) (hes : ∀ x ∈ es, p x = true) (hc : p c = false)
    (hd : p d = false) (h : xs ++ c :: ds = ys ++ d :: es) : xs = ys ∧ ds = es := by
  have hout : ∀ {zs : List Char} {x : Char}, (∀ y ∈ zs, p y = true) → p x = false → x ∉ zs :=
    fun hzs hx hmem => by simp [hzs _ hmem] at hx
  rcases List.append_eq_append_iff.mp h with ⟨as, rfl, has⟩ | ⟨as, rfl, has⟩
  · cases as with
    | nil => exact ⟨by simp, (List.cons.inj has).2⟩
    | cons a as =>
      obtain ⟨-, rfl⟩ := List.cons.inj has
      exact absurd (List.mem_append_right as List.mem_cons_self) (hout hds hd)
  · cases as with
    | nil => exact ⟨by simp, (List.cons.inj has).2.symm⟩
    | cons a as =>
      obtain ⟨-, rfl⟩ := List.cons.inj has
      exact absurd (List.mem_append_right as List.mem_cons_self) (hout hes hc)

namespace Contents

/-- The counts at the end of a line, as they are written. -/
def countText (k m : Nat) : String :=
  ", " ++ natText k ++ "/" ++ natText m ++ " dependencies done"

/-- The counts are read back from the end of a line. -/
theorem countText_inj {front front' : String} {k k' m m' : Nat}
    (h : front ++ countText k m = front' ++ countText k' m') : k = k' ∧ m = m' := by
  have hchars : ∀ (front : String) (k m : Nat), (front ++ countText k m).toList =
      ((front.toList ++ [',']) ++ ' ' :: Text.numeral k) ++ '/' :: Text.numeral m ++
        " dependencies done".toList := by
    intro front k m
    simp [countText, natText]
  have hdigits : ∀ n, ∀ c ∈ Text.numeral n, c.isDigit = true :=
    fun _ _ hc => Text.isDigit_of_mem_numeral hc
  have hlists := congrArg String.toList h
  rw [hchars, hchars] at hlists
  obtain ⟨hfront, hm⟩ := Text.eq_of_append_cons_eq (hdigits m) (hdigits m') (by decide) (by decide)
    (List.append_cancel_right hlists)
  obtain ⟨-, hk⟩ := Text.eq_of_append_cons_eq (hdigits k) (hdigits k') (by decide) (by decide)
    hfront
  exact ⟨Text.numeral_inj hk, Text.numeral_inj hm⟩

/-- A text that ends in a word without `e` does not end in `e`. -/
theorem getLast?_append_word (s : String) {word : String} (hne : word.toList ≠ [])
    (he : 'e' ∉ word.toList) : (s ++ word).toList.getLast? ≠ some 'e' := by
  rw [String.toList_append, List.getLast?_append]
  cases hlast : word.toList.getLast? with
  | none => exact absurd (List.getLast?_eq_none_iff.mp hlast) hne
  | some c =>
    rintro ⟨⟩
    exact he (List.mem_of_getLast? hlast)

/-- Identifiers in a row are no empty text, and have no letters. -/
theorem waiting_word (b : Node) (bs : List Node) :
    (", ".intercalate ((b :: bs).map fun m => m.id.text)).toList ≠ [] ∧
      'e' ∉ (", ".intercalate ((b :: bs).map fun m => m.id.text)).toList := by
  have hchars : (", ".intercalate ((b :: bs).map fun m => m.id.text)).toList =
      [',', ' '].intercalate ((b :: bs).map fun m => m.id.chars) := by
    rw [String.toList_intercalate, List.map_map]
    refine congrArg _ (List.map_congr_left fun m _ => ?_)
    exact String.toList_ofList
  rw [hchars]
  constructor
  · cases bs with
    | nil => simpa using b.id.isWord_chars.ne_nil
    | cons b' bs => simp [List.intercalate_cons_cons]
  · intro he
    rcases Text.mem_intercalate he with hsep | ⟨w, hw, hc⟩
    · exact absurd hsep (by decide)
    · obtain ⟨m, -, rfl⟩ := List.mem_map.mp hw
      rcases TaskId.chars_solid hc with hdigit | hdot
      · exact absurd hdigit (by decide)
      · exact absurd hdot (by decide)

/-- What is said of the status ends in a status, a date or an identifier. -/
theorem statusText_ends (t : Outline) (g : Dependencies) (n : Node) :
    ∃ front word, statusText t g n = front ++ word ∧ word.toList ≠ [] ∧ 'e' ∉ word.toList := by
  have hstatus : ∀ s : Status, s.text.toList ≠ [] ∧ 'e' ∉ s.text.toList := by
    intro s
    cases s <;> decide
  have hdate : ∀ d : Date, d.text.toList ≠ [] ∧ 'e' ∉ d.text.toList := by
    intro d
    refine ⟨d.isWord_text.ne_nil, fun he => ?_⟩
    rcases Date.isDigit_or_dash (String.toList_ofList ▸ he) with hdigit | hdash
    · exact absurd hdigit (by decide)
    · exact absurd hdash (by decide)
  unfold statusText
  split
  · cases g.blockers t n.id with
    | nil => exact ⟨"", _, String.empty_append.symm, hstatus n.status⟩
    | cons b bs => exact ⟨_, _, rfl, waiting_word b bs⟩
  · rename_i deadline _ _
    exact ⟨_, _, rfl, hdate deadline⟩
  · rename_i deadline _ _
    exact ⟨_, _, rfl, hdate deadline⟩
  · exact ⟨"", _, String.empty_append.symm, hstatus _⟩

/-- A line without counts does not end as one with counts does. -/
theorem getLast?_entry {t : Outline} {g : Dependencies} {n : Node} (h : progressText t g n = "")
    (depth : Nat) : (entry t g depth n).toList.getLast? ≠ some 'e' := by
  unfold entry
  rw [h, String.append_empty]
  cases hp : n.priority with
  | none =>
    obtain ⟨front, word, htext, hne, he⟩ := statusText_ends t g n
    simp only [priorityText, hp, String.append_empty, htext, ← String.append_assoc]
    exact getLast?_append_word _ hne he
  | some p =>
    simp only [priorityText, hp, ← String.append_assoc]
    refine getLast?_append_word _ p.isWord_text.ne_nil fun he => ?_
    have hdigit := Text.isDigit_of_mem_numeral (String.toList_ofList ▸ he)
    exact absurd hdigit (by decide)

/-- A line has counts at its end, those of the tasks that are done and of all that the task
depends on, or ends otherwise. -/
theorem counts_of_entry {t : Outline} {g : Dependencies} {n : Node} {depth k m : Nat}
    {front : String} (h : entry t g depth n = front ++ countText k m) :
    k = (g.finished t n.id).length ∧ m = (g.of n.id).length := by
  have hcounts : progressText t g n = "" ∨
      progressText t g n = countText (g.finished t n.id).length (g.of n.id).length := by
    unfold progressText
    split
    · exact .inl rfl
    · exact .inr rfl
  rcases hcounts with hnone | hcounts
  · refine absurd ?_ (getLast?_entry hnone depth)
    rw [h, countText, ← String.append_assoc, String.toList_append, List.getLast?_append]
    rfl
  · unfold entry at h
    rw [hcounts] at h
    exact countText_inj h.symm

end Contents

open Dependencies in
/-- **References are checked and looked up as they were declared.**  Of an outline, those
declared dependencies are reported that lead to no node, one after another and none twice,
each at the record that declares it, and nothing else.  The graph has a node for each of the
outline, and its edges lead to each task from those that its record names and that have a
node.  These are what the task depends on, in order; whatever way the edges are gone through,
the same is found.  Those of them that are not done are what the task waits for.

In a loaded document every task depends on all that its record names.  Where a line of the
table of contents ends in counts, the second is the number of these, and the first falls
short of it by the number of tasks that are waited for. -/
theorem references_agree :
    (∀ t : Outline,
      let g := (ofOutline t).value
      (∃ pairs : List (TaskId × TaskId), pairs.Pairwise PairBefore ∧
        (∀ a b, (a, b) ∈ pairs ↔ t.Names a b ∧ ∀ m ∈ t.nodes, m.id ≠ b) ∧
        (ofOutline t).log = pairs.map fun (a, b) =>
          ⟨.error, (t.find? a).bind Node.location?, .missingDependency a b⟩) ∧
      (g.ids = t.ids ∧
        (∀ id i, g.index? id = some i ↔ g.ids[i]? = some id) ∧
        (∀ i j, (i, j) ∈ g.edges ↔
          ∃ a b, g.ids[i]? = some b ∧ g.ids[j]? = some a ∧ t.Names a b) ∧
        ∀ id i, g.index? id = some i → ∀ found : List Nat, found.Perm (g.incoming i) →
          g.of id = g.sorted found) ∧
      ∀ id,
        (g.of id).Pairwise (· < ·) ∧
        (∀ b, b ∈ g.of id ↔ t.Names id b ∧ ∃ m ∈ t.nodes, m.id = b) ∧
        (id ∉ t.ids → g.of id = []) ∧
        ((g.blockers t id).map Node.id).Sublist (g.of id) ∧
        ∀ m, m ∈ g.blockers t id ↔ m ∈ t.nodes ∧ m.id ∈ g.of id ∧ m.status ≠ .done) ∧
    ∀ source w prior doc log, Source.load source w prior = (some doc, log) →
      ∀ n ∈ doc.outline.nodes,
        doc.dependencies.of n.id = n.depends ∧
        ∀ depth front k m,
          Contents.entry doc.outline doc.dependencies depth n =
              front ++ (", " ++ natText k ++ "/" ++ natText m ++ " dependencies done") →
            m = n.depends.length ∧
              k + (doc.dependencies.blockers doc.outline n.id).length = m := by
  constructor
  · intro t g
    refine ⟨⟨danglingPairs t, danglingPairs_pairwise t, fun a b => mem_danglingPairs_iff,
      log_eq_map t⟩, ⟨ids_ofOutline t, fun id i => index?_ofOutline_iff, fun i j => ?_,
      fun id i hi found hfound => of_eq_sorted hi hfound⟩,
      fun id => ⟨ascending_of _ id, fun b => mem_of_iff.trans dependsOn_iff, ?_,
      blockers_sublist t id, fun m => mem_blockers_iff⟩⟩
    · exact mem_edges_iff_names
    · intro hid
      exact of_eq_nil (ids_ofOutline t ▸ hid)
  · intro source w prior doc log hload n hn
    have hall := Source.declared_of_load hload hn
    refine ⟨hall, fun depth front k m hline => ?_⟩
    obtain ⟨rfl, rfl⟩ := Contents.counts_of_entry hline
    refine ⟨congrArg List.length hall, ?_⟩
    rw [Source.dependencies_of_load hload]
    exact finished_add_blockers doc.outline n.id

/-! A task that depends on two others, of which one is done. -/

/-- The three tasks. -/
def waitingTasks : Source :=
  { text := "---\ntask 1\nstatus done\n---\n---\ntask 1.1\n---\n---\ntask 2\ndepends 1.1 1\n---\n" }

/-- Their records. -/
def waitingRecords : List Record :=
  [{ Record.bare .first ⟨"<stdin>", 1⟩ with status := some .done },
    .bare .firstUnderFirst ⟨"<stdin>", 5⟩,
    { Record.bare .second ⟨"<stdin>", 8⟩ with
      depends := IdSet.ofList [.firstUnderFirst, .first] }]

theorem load_waitingTasks (w : Workspace) :
    let t := Outline.ofRecords waitingRecords
    waitingTasks.load w [] =
      (some ⟨t, (Dependencies.ofOutline t).value⟩, Dependencies.cycleWarnings t) := by
  have hread : readDocument waitingTasks.origin waitingTasks.text =
      ⟨waitingRecords.map .task, []⟩ := rfl
  exact Source.load_of_tasks hread (List.cons_ne_nil _ _) rfl (by decide +kernel)

/-- The task that depends on the others. -/
def waitingNode : Node := (Outline.ofRecords waitingRecords).nodes.get ⟨2, by decide +kernel⟩

/-- Its line says that one of two dependencies is done, and it waits for the other. -/
theorem references_agree_waiting :
    let w := Shelf.empty.workspace ⟨"."⟩
    ∃ doc log, waitingTasks.load w [] = (some doc, log) ∧ waitingNode ∈ doc.outline.nodes ∧
      Contents.entry doc.outline doc.dependencies 0 waitingNode =
        "- [ ] 2: TODO" ++ (", " ++ natText 1 ++ "/" ++ natText 2 ++ " dependencies done") ∧
      waitingNode.depends = [.first, .firstUnderFirst] ∧
      2 = waitingNode.depends.length ∧
      1 + (doc.dependencies.blockers doc.outline waitingNode.id).length = 2 := by
  intro w
  have hload := load_waitingTasks w
  have hmem : waitingNode ∈ (Outline.ofRecords waitingRecords).nodes := List.get_mem _ _
  have hline : Contents.entry (Outline.ofRecords waitingRecords)
      (Dependencies.ofOutline (Outline.ofRecords waitingRecords)).value 0 waitingNode =
        "- [ ] 2: TODO" ++ (", " ++ natText 1 ++ "/" ++ natText 2 ++ " dependencies done") := by
    simp only [Contents.entry, Contents.statusText, Contents.progressText,
      Dependencies.finished, Dependencies.blockers, Dependencies.of_node hmem]
    decide +kernel
  obtain ⟨-, hcounts⟩ := references_agree.2 waitingTasks w [] _ _ hload waitingNode hmem
  exact ⟨_, _, hload, hmem, hline, by decide +kernel, hcounts 0 _ 1 2 hline⟩

end TaskOutline
