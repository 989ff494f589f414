import TaskOutline.Outline.Cycles
import TaskOutline.Proofs.Identifier.Order
import TaskOutline.Proofs.Outline.Entries

/-! # The graph of dependencies

A graph is looked up by identifiers and linked by indices.  Between the two stands its
index, which has an entry for every node of an outline once the nodes have been added
(`index?_bare_iff`).  Then the references add an edge for each that leads to a node and
report the others, node by node, and leave everything else as it is (`ofOutline_eq`).

What a task depends on is found against the edges.  It is sorted, so that the order in
which the edges are come by does not matter (`sorted_congr`), and only what is in it has
to be known: the references of the node that lead to nodes (`mem_of_iff_edge`,
`mem_edges_ofOutline`).
-/
namespace TaskOutline

theorem Node.mem_depends_iff {n : Node} {id : TaskId} :
    id ∈ n.depends ↔ ∃ r, n.record = some r ∧ id ∈ r.depends := by
  unfold depends
  cases n.record with
  | none => simp
  | some r => simp [IdSet.mem_def]

namespace Dependencies

variable {g : Dependencies} {t : Outline} {n : Node} {id a b : TaskId} {i j : Nat}
  {xs ys : List Nat}

/-! ## Looking up -/

theorem mem_incoming : i ∈ g.incoming j ↔ (i, j) ∈ g.edges := by
  simp [incoming]

theorem mem_sorted : id ∈ g.sorted xs ↔ ∃ i ∈ xs, g.ids[i]? = some id := by
  rw [sorted, mem_eraseReps, List.mem_mergeSort, List.mem_filterMap]

theorem ascending_sorted (g : Dependencies) (xs : List Nat) : (g.sorted xs).Pairwise (· < ·) :=
  pairwise_eraseReps (pairwise_mergeSort_key (fun id => id) _)

/-- **The order in which indices come does not matter**, nor how often they do. -/
theorem sorted_congr (h : ∀ i, i ∈ xs ↔ i ∈ ys) : g.sorted xs = g.sorted ys := by
  refine Ascending.ext (ascending_sorted g xs) (ascending_sorted g ys) fun id => ?_
  simp only [mem_sorted, h]

theorem ascending_of (g : Dependencies) (id : TaskId) : (g.of id).Pairwise (· < ·) := by
  unfold of
  split
  · exact ascending_sorted g _
  · exact List.Pairwise.nil

/-- A task depends on those that an edge leads from to it. -/
theorem mem_of_iff_edge :
    b ∈ g.of a ↔ ∃ i j, g.index? a = some j ∧ (i, j) ∈ g.edges ∧ g.ids[i]? = some b := by
  unfold of
  cases hj : g.index? a with
  | none => simp
  | some j => simp [mem_sorted, mem_incoming]

/-! ## Adding nodes -/

theorem ids_addNodes (ids : List TaskId) (g : Dependencies) :
    (ids.foldl addNode g).ids = g.ids ++ ids := by
  induction ids generalizing g with
  | nil => exact (List.append_nil _).symm
  | cons id ids ih =>
    rw [List.foldl_cons, ih]
    exact List.append_assoc _ [id] ids

theorem edges_addNodes (ids : List TaskId) (g : Dependencies) :
    (ids.foldl addNode g).edges = g.edges := by
  induction ids generalizing g with
  | nil => rfl
  | cons id ids ih => rw [List.foldl_cons, ih, addNode]

/-- A node that has been added has an index, and so have those that were there. -/
theorem isSome_index?_addNode :
    ((g.addNode a).index? id).isSome ↔ id = a ∨ (g.index? id).isSome := by
  have hindex : ∀ g : Dependencies, (g.index? id).isSome ↔ id ∈ g.index.map Prod.fst := by
    intro g
    simp [index?]
  rw [hindex, hindex, addNode, List.map_cons, List.mem_cons]
  by_cases h : id = a
  · simp [h]
  · rw [or_iff_right h, or_iff_right h]
    simp only [List.mem_map, List.mem_filter, decide_eq_true_eq]
    constructor
    · rintro ⟨entry, ⟨he, -⟩, rfl⟩
      exact ⟨entry, he, rfl⟩
    · rintro ⟨entry, he, rfl⟩
      exact ⟨entry, ⟨he, h⟩, rfl⟩

theorem isSome_index?_addNodes (ids : List TaskId) (g : Dependencies) :
    ((ids.foldl addNode g).index? id).isSome ↔ id ∈ ids ∨ (g.index? id).isSome := by
  induction ids generalizing g with
  | nil => simp
  | cons a ids ih =>
    rw [List.foldl_cons, ih, isSome_index?_addNode, List.mem_cons, or_left_comm, or_assoc]

/-- The nodes of an outline, before any edge is added. -/
def bare (t : Outline) : Dependencies := t.ids.foldl addNode empty

theorem ids_bare (t : Outline) : (bare t).ids = t.ids := ids_addNodes t.ids empty

/-- **A node has its place in the outline as its index.** -/
theorem index?_bare_iff : (bare t).index? id = some i ↔ t.ids[i]? = some id := by
  have hplace : ∀ {i}, (bare t).index? id = some i → t.ids[i]? = some id :=
    fun h => ids_bare t ▸ getElem?_ids_of_index? h
  refine ⟨hplace, fun h => ?_⟩
  obtain ⟨j, hj⟩ := Option.isSome_iff_exists.mp
    ((isSome_index?_addNodes t.ids empty).mpr (.inl (List.mem_of_getElem? h)))
  -- no identifier stands in two places
  have hi : i < t.ids.length := (List.getElem?_eq_some_iff.mp h).1
  rwa [List.getElem?_inj hi t.ids_nodup |>.mp (h.trans (hplace hj).symm)]

theorem contains_iff_mem : t.contains id = true ↔ ∃ n ∈ t.nodes, n.id = id := by
  rw [Outline.contains, Outline.find?, List.find?_isSome]
  simp only [decide_eq_true_eq]

theorem isSome_index?_bare : ((bare t).index? id).isSome = t.contains id := by
  rw [Bool.eq_iff_iff, contains_iff_mem, bare, isSome_index?_addNodes]
  simp [Outline.ids, empty, index?]

/-! ## Adding references -/

/-- The graph with other edges. -/
def withEdges (g : Dependencies) (edges : List (Nat × Nat)) : Dependencies :=
  { g with edges := edges }

/-- The edge of a reference, if it leads to a node. -/
def edge? (g : Dependencies) (n : Node) (id : TaskId) : Option (Nat × Nat) := do
  let tail ← g.index? id
  let head ← g.index? n.id
  return (tail, head)

theorem edge?_eq_some_iff :
    g.edge? n id = some (i, j) ↔ g.index? id = some i ∧ g.index? n.id = some j := by
  unfold edge?
  cases g.index? id <;> cases g.index? n.id <;> simp

/-- The edges of the references of a node. -/
def edgesOf (g : Dependencies) (n : Node) : List (Nat × Nat) :=
  n.depends.flatMap fun id => (g.edge? n id).toList

/-- The report about a reference of a node, if it leads nowhere. -/
def missing? (g : Dependencies) (n : Node) (id : TaskId) : Option Diagnostic :=
  if (g.index? id).isSome then none else some ⟨.error, n.location?, .missingDependency n.id id⟩

/-- The reports about the references of a node. -/
def missing (g : Dependencies) (n : Node) : List Diagnostic :=
  n.depends.flatMap fun id => (g.missing? n id).toList

/-- A reference adds its edge, or it is reported. -/
theorem addReference_eq (g : Dependencies) (n : Node) (id : TaskId) (edges : List (Nat × Nat)) :
    addReference n (g.withEdges edges) id =
      ⟨g.withEdges (edges ++ (g.edge? n id).toList), (g.missing? n id).toList⟩ := by
  have hindex : ∀ id, (g.withEdges edges).index? id = g.index? id := fun _ => rfl
  unfold addReference edge? missing?
  rw [hindex, hindex]
  cases g.index? id with
  | none => simp [withEdges, Logged.report, bind, pure]
  | some tail =>
    cases g.index? n.id with
    | none => simp [withEdges, pure]
    | some head => simp [withEdges, addEdge, pure]

/-- **Steps that each add edges and report add all their edges and reports**, where neither
depends on the edges that are there. -/
theorem foldlM_withEdges {α : Type} (step : Dependencies → α → Logged Dependencies)
    {added : α → List (Nat × Nat)} {reported : α → List Diagnostic}
    (h : ∀ x edges, step (g.withEdges edges) x = ⟨g.withEdges (edges ++ added x), reported x⟩)
    (xs : List α) (edges : List (Nat × Nat)) :
    xs.foldlM step (g.withEdges edges) =
      ⟨g.withEdges (edges ++ xs.flatMap added), xs.flatMap reported⟩ := by
  induction xs generalizing edges with
  | nil =>
    rw [List.flatMap_nil, List.append_nil]
    rfl
  | cons x xs ih =>
    rw [List.foldlM_cons, h]
    refine Logged.ext ?_ ?_
    · rw [Logged.value_bind, ih, List.flatMap_cons, List.append_assoc]
    · rw [Logged.log_bind, ih]
      show reported x ++ xs.flatMap reported = _
      exact List.flatMap_cons.symm

/-- **The graph of an outline** has an edge for each reference that leads to a node; the
others are reported. -/
theorem ofOutline_eq (t : Outline) :
    ofOutline t = ⟨(bare t).withEdges (t.nodes.flatMap (bare t).edgesOf),
      t.nodes.flatMap (bare t).missing⟩ := by
  have hnode : ∀ (n : Node) edges,
      n.depends.foldlM (addReference n) ((bare t).withEdges edges) =
        ⟨(bare t).withEdges (edges ++ (bare t).edgesOf n), (bare t).missing n⟩ := fun n edges =>
    foldlM_withEdges (addReference n) (addReference_eq (bare t) n) n.depends edges
  have hnodes := foldlM_withEdges (fun g n => n.depends.foldlM (addReference n) g) hnode t.nodes []
  have hbare : (bare t).withEdges [] = bare t := by
    unfold withEdges
    rw [← show (bare t).edges = [] from edges_addNodes t.ids empty]
  rwa [hbare] at hnodes

theorem index?_ofOutline (t : Outline) (id : TaskId) :
    (ofOutline t).value.index? id = (bare t).index? id := by
  rw [ofOutline_eq]
  rfl

theorem ids_ofOutline (t : Outline) : (ofOutline t).value.ids = t.ids := by
  rw [ofOutline_eq]
  exact ids_bare t

/-- The edges lead from the tasks that are named to those that name them. -/
theorem mem_edges_ofOutline :
    (i, j) ∈ (ofOutline t).value.edges ↔
      ∃ n ∈ t.nodes, ∃ id ∈ n.depends, t.ids[i]? = some id ∧ t.ids[j]? = some n.id := by
  rw [ofOutline_eq]
  show (i, j) ∈ t.nodes.flatMap (bare t).edgesOf ↔ _
  simp only [edgesOf, List.mem_flatMap, Option.mem_toList, edge?_eq_some_iff, index?_bare_iff]

/-! ## References that lead nowhere -/

/-- The declared dependencies of nodes on tasks that have none, each with the
node that declares it. -/
def danglingPairs (t : Outline) : List (TaskId × TaskId) :=
  t.nodes.flatMap fun n => (n.depends.filter fun id => !t.contains id).map fun id => (n.id, id)

/-- The order of pairs by the first identifier, and by the second where the first
is the same. -/
def PairBefore (a b : TaskId × TaskId) : Prop := a.1 < b.1 ∨ a.1 = b.1 ∧ a.2 < b.2

theorem ascending_depends (n : Node) : n.depends.Pairwise (· < ·) := by
  unfold Node.depends
  split
  · rename_i r _
    exact r.depends.ascending
  · exact List.Pairwise.nil

theorem danglingPairs_pairwise (t : Outline) : (danglingPairs t).Pairwise PairBefore := by
  refine List.pairwise_flatMap.mpr ⟨fun n _ => ?_, t.ascending.imp ?_⟩
  · exact List.pairwise_map.mpr (((ascending_depends n).filter _).imp fun h => .inr ⟨rfl, h⟩)
  · intro n m hlt x hx y hy
    obtain ⟨d, -, rfl⟩ := List.mem_map.mp hx
    obtain ⟨e, -, rfl⟩ := List.mem_map.mp hy
    exact .inl hlt

/-- The report about a reference that leads nowhere, at the first record of the
task that has it. -/
def danglingReport (records : List Record) (pair : TaskId × TaskId) : Diagnostic :=
  ⟨.error, (records.find? fun r => r.id = pair.1).map Record.location,
    .missingDependency pair.1 pair.2⟩

/-- What the node of an identifier depends on is what its first record says. -/
theorem exists_node_ofRecords {records : List Record} {n d : TaskId} :
    (∃ m ∈ (Outline.ofRecords records).nodes, m.id = n ∧ d ∈ m.depends) ↔
      ∃ r, records.find? (fun x => x.id = n) = some r ∧ d ∈ r.depends := by
  simp only [← Outline.mem_entries_ofRecords, Outline.entries, List.mem_map, Prod.mk.injEq,
    Node.mem_depends_iff]
  constructor
  · rintro ⟨m, hm, rfl, r, hr, hd⟩
    exact ⟨r, ⟨m, hm, rfl, hr⟩, hd⟩
  · rintro ⟨r, ⟨m, hm, rfl, hr⟩, hd⟩
    exact ⟨m, hm, rfl, r, hr, hd⟩

/-- A reference leads nowhere if a node has it and there is no node that it leads to. -/
theorem mem_danglingPairs_iff_contains :
    (a, b) ∈ danglingPairs t ↔
      (∃ n ∈ t.nodes, n.id = a ∧ b ∈ n.depends) ∧ t.contains b = false := by
  simp only [danglingPairs, List.mem_flatMap, List.mem_map, List.mem_filter, Prod.mk.injEq,
    Bool.not_eq_true']
  constructor
  · rintro ⟨n, hn, d, ⟨hd, hnode⟩, rfl, rfl⟩
    exact ⟨⟨n, hn, rfl, hd⟩, hnode⟩
  · rintro ⟨⟨n, hn, rfl, hd⟩, hnode⟩
    exact ⟨n, hn, b, ⟨hd, hnode⟩, rfl, rfl⟩

theorem mem_danglingPairs {records : List Record} {n d : TaskId} :
    (n, d) ∈ danglingPairs (Outline.ofRecords records) ↔
      (∃ r, records.find? (fun x => x.id = n) = some r ∧ d ∈ r.depends) ∧
        ∀ r ∈ records, ¬ d.segments <+: r.id.segments := by
  rw [mem_danglingPairs_iff_contains, exists_node_ofRecords, ← Bool.not_eq_true,
    Outline.contains_ofRecords]
  simp

/-- The report about a reference that leads nowhere, at the record of the node that has it. -/
def nodeReport (t : Outline) (pair : TaskId × TaskId) : Diagnostic :=
  ⟨.error, (t.find? pair.1).bind Node.location?, .missingDependency pair.1 pair.2⟩

/-- What is reported about the dependencies of an outline are the references that lead
nowhere. -/
theorem log_eq_map (t : Outline) : (ofOutline t).log = (danglingPairs t).map (nodeReport t) := by
  rw [ofOutline_eq]
  show t.nodes.flatMap (bare t).missing = _
  unfold danglingPairs
  rw [List.map_flatMap, List.flatMap_def, List.flatMap_def]
  refine congrArg List.flatten (List.map_congr_left fun n hn => ?_)
  have hfind : t.find? n.id = some n := Outline.find?_eq_some_iff.mpr ⟨hn, rfl⟩
  rw [List.map_map]
  unfold missing
  generalize n.depends = ids
  induction ids with
  | nil => rfl
  | cons id ids ih =>
    rw [List.flatMap_cons, ih, List.filter_cons, missing?, isSome_index?_bare]
    cases t.contains id with
    | true => rfl
    | false => simp [nodeReport, hfind]

/-- Checking the dependencies of an outline of records reports the references that
lead nowhere. -/
theorem log_ofOutline (records : List Record) :
    (ofOutline (Outline.ofRecords records)).log =
      (danglingPairs (Outline.ofRecords records)).map (danglingReport records) := by
  rw [log_eq_map]
  refine List.map_congr_left fun (n, d) hpair => ?_
  obtain ⟨⟨r, hr, -⟩, -⟩ := mem_danglingPairs.mp hpair
  obtain ⟨m, hm, he⟩ := List.mem_map.mp (Outline.mem_entries_ofRecords.mpr hr)
  obtain ⟨rfl, hrecord⟩ := Prod.mk.inj he
  have hfind : (Outline.ofRecords records).find? m.id = some m :=
    Outline.find?_eq_some_iff.mpr ⟨hm, rfl⟩
  simp only [nodeReport, danglingReport, hfind, hr, Option.bind_some, Option.map_some,
    Node.location?, hrecord]

end Dependencies

end TaskOutline
