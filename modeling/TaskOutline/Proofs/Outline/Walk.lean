import Mathlib.Data.List.MinMax
import Mathlib.Logic.Function.Iterate
import Mathlib.Order.Nat
import TaskOutline.Outline.Walk
import TaskOutline.Proofs.Outline.Subtrees

/-! # A walk keeps the order of the nodes

The nodes of an outline are kept in the order of their identifiers, and a walk goes down
from each node to those under it.  The two orders are one: a walk comes to the nodes in
their order and leaves out those that lie under a node where it does not go down.

What a walk comes to from one identifier on is `Outline.reached`, which is read off the
order alone.  It is the node of the identifier, and then what is reached from its children,
one after the other (`Outline.Coherent.reached_eq`).  `Outline.walk` follows this equation
level by level.  A walk with a stack follows it move by move (`Walker.next`): what it has
come to, and what is reached from the identifiers on its stack, is the same after each move
(`Walker.At.next`).
-/
namespace TaskOutline

/-! ## Depth -/

namespace TaskId

theorem length_of_parent? {id p : TaskId} (h : id.parent? = some p) :
    id.segments.length = p.segments.length + 1 :=
  length_eq_of_dropLast (segments_of_parent? h).symm

theorem depth_of_parent? {id p : TaskId} (h : id.parent? = some p) : id.depth = p.depth + 1 := by
  have hpos : 0 < p.segments.length := List.length_pos_iff.mpr p.nonempty
  rw [depth, depth, length_of_parent? h]
  omega

theorem depth_of_top {id : TaskId} (htop : id.parent? = none) : id.depth = 0 := by
  rw [depth, length_eq_of_dropLast (dropLast_of_top htop)]
  rfl

end TaskId

/-! ## Identifiers that are reached -/

namespace Outline

variable (t : Outline) (descend : Node → Bool)

/-- A walk comes to an identifier when it goes down at every node above it. -/
def Reaches (id : TaskId) : Prop :=
  ∀ m ∈ t.nodes, m.id.segments <+: id.segments → m.id ≠ id → descend m = true

instance (id : TaskId) : Decidable (t.Reaches descend id) :=
  inferInstanceAs (Decidable (∀ m ∈ t.nodes, m.id.segments <+: id.segments → m.id ≠ id →
    descend m = true))

/-- The nodes of identifiers to which a walk comes, with their depth. -/
def reachedAmong (ids : List TaskId) : List (Nat × Node) :=
  (ids.filter fun id => t.Reaches descend id).filterMap fun id =>
    (t.find? id).map fun n => (id.depth, n)

/-- What a walk comes to from an identifier on, in the order of the nodes. -/
def reached (id : TaskId) : List (Nat × Node) :=
  t.reachedAmong descend (subtree t.ids id)

variable {t descend}

theorem exists_find? {id : TaskId} (hid : id ∈ t.ids) : ∃ n, t.find? id = some n := by
  obtain ⟨n, hn, rfl⟩ := List.mem_map.mp hid
  exact ⟨n, find?_eq_some_iff.mpr ⟨hn, rfl⟩⟩

/-- Nothing is above a root. -/
theorem reaches_of_top {id : TaskId} (htop : id.parent? = none) : t.Reaches descend id := by
  intro m _ hbegins hne
  have hproper : m.id.segments <+: id.segments.dropLast :=
    TaskId.prefix_dropLast_iff.mpr ⟨hbegins, hne⟩
  rw [TaskId.dropLast_of_top htop, List.prefix_nil] at hproper
  exact absurd hproper m.id.nonempty

/-- A walk that goes down at a node comes to the node's children. -/
theorem Reaches.child {id child : TaskId} {n : Node} (h : t.Reaches descend id)
    (hfind : t.find? id = some n) (hdown : descend n = true) (hchild : child.parent? = some id) :
    t.Reaches descend child := by
  intro m hm hbegins hne
  have hproper : m.id.segments <+: id.segments := by
    rw [TaskId.segments_of_parent? hchild]
    exact TaskId.prefix_dropLast_iff.mpr ⟨hbegins, hne⟩
  by_cases heq : m.id = id
  · have hmn : t.find? id = some m := find?_eq_some_iff.mpr ⟨hm, heq⟩
    rw [hfind] at hmn
    cases hmn
    exact hdown
  · exact h m hm hproper heq

/-- A walk that does not go down at a node comes to nothing under it. -/
theorem not_reaches_of_closed {id x : TaskId} {n : Node} (hfind : t.find? id = some n)
    (hclosed : descend n = false) (hbegins : id.segments <+: x.segments) (hne : id ≠ x) :
    ¬ t.Reaches descend x := by
  intro h
  obtain ⟨hn, rfl⟩ := find?_eq_some_iff.mp hfind
  rw [h n hn hbegins hne] at hclosed
  cases hclosed

/-! ## What is reached from an identifier on -/

theorem reachedAmong_flatMap (ids : List TaskId) (f : TaskId → List TaskId) :
    t.reachedAmong descend (ids.flatMap f) = ids.flatMap fun id => t.reachedAmong descend (f id) := by
  simp only [reachedAmong, List.filter_flatMap, List.filterMap_flatMap]

/-- Among all identifiers, those that are reached have the nodes that are reached. -/
theorem reachedAmong_ids :
    t.reachedAmong descend t.ids =
      (t.nodes.filter fun n => t.Reaches descend n.id).map fun n => (n.id.depth, n) := by
  unfold reachedAmong ids
  rw [List.filter_map, List.filterMap_map, ← List.filterMap_eq_map]
  refine List.filterMap_congr fun n hn => ?_
  have hfind : t.find? n.id = some n := find?_eq_some_iff.mpr ⟨List.mem_of_mem_filter hn, rfl⟩
  show (t.find? n.id).map _ = _
  rw [hfind]
  rfl

/-- **From a node on a walk comes to the node, and then to what is reached from its
children**, unless it does not go down. -/
theorem Coherent.reached_eq (h : t.Coherent) {id : TaskId} {n : Node}
    (hfind : t.find? id = some n) (hreach : t.Reaches descend id) :
    t.reached descend id =
      (id.depth, n) :: if descend n then n.children.flatMap (t.reached descend) else [] := by
  obtain ⟨hn, hid⟩ := find?_eq_some_iff.mp hfind
  have hmem : id ∈ t.ids := hid ▸ List.mem_map_of_mem hn
  have hchildren : n.children = childrenOf t.ids id := hid ▸ h.children n hn
  have hfirst : t.reached descend id =
      (id.depth, n) :: t.reachedAmong descend ((childrenOf t.ids id).flatMap (subtree t.ids)) := by
    unfold reached reachedAmong
    rw [h.subtree_eq hmem, List.filter_cons_of_pos (by simpa using hreach), List.filterMap_cons,
      hfind]
    rfl
  rw [hfirst]
  congr 1
  cases hdown : descend n with
  | true =>
    rw [reachedAmong_flatMap, hchildren]
    rfl
  | false =>
    -- the node is above all that lies under its children
    have hnone : ∀ x ∈ (childrenOf t.ids id).flatMap (subtree t.ids), ¬ t.Reaches descend x := by
      intro x hx
      obtain ⟨c, hc, hx⟩ := List.mem_flatMap.mp hx
      obtain ⟨-, hparent⟩ := mem_childrenOf_iff.mp hc
      obtain ⟨-, hbegins⟩ := mem_subtree_iff.mp hx
      have hproper : id.segments <+: c.segments ∧ id ≠ c :=
        TaskId.prefix_dropLast_iff.mp (TaskId.segments_of_parent? hparent ▸ List.prefix_rfl)
      refine not_reaches_of_closed hfind hdown (hproper.1.trans hbegins) ?_
      rintro rfl
      exact hproper.2 (TaskId.ext (hproper.1.eq_of_length_le hbegins.length_le))
    rw [reachedAmong, List.filter_eq_nil_iff.mpr (by simpa using hnone)]
    rfl

theorem Coherent.reached_ne_nil (h : t.Coherent) {id : TaskId} (hid : id ∈ t.ids)
    (hreach : t.Reaches descend id) : t.reached descend id ≠ [] := by
  obtain ⟨n, hfind⟩ := exists_find? hid
  rw [h.reached_eq hfind hreach]
  exact List.cons_ne_nil _ _

/-- What is reached from the roots is all that is reached. -/
theorem Coherent.flatMap_reached_roots (h : t.Coherent) :
    t.roots.flatMap (t.reached descend) =
      (t.nodes.filter fun n => t.Reaches descend n.id).map fun n => (n.id.depth, n) := by
  rw [← reachedAmong_ids]
  show (t.roots.flatMap fun id => t.reachedAmong descend (subtree t.ids id)) = _
  rw [← reachedAmong_flatMap, h.flatMap_subtree_roots]

/-! ## Level by level -/

theorem length_le_height {n : Node} (hn : n ∈ t.nodes) : n.id.segments.length ≤ t.height :=
  List.le_max_of_le (List.mem_map_of_mem hn) (Nat.le_refl _)

/-- Over as many levels as there are below an identifier, a walk comes to all that is
reached from there on. -/
theorem Coherent.walkFrom_eq (h : t.Coherent) {levels : Nat} {id : TaskId} (hid : id ∈ t.ids)
    (hreach : t.Reaches descend id)
    (hlevels : ∀ n ∈ t.nodes, n.id.segments.length < levels + id.segments.length) :
    t.walkFrom descend levels id.depth id = t.reached descend id := by
  induction levels generalizing id with
  | zero =>
    obtain ⟨n, hn, rfl⟩ := List.mem_map.mp hid
    have hlt := hlevels n hn
    omega
  | succ levels ih =>
    obtain ⟨n, hfind⟩ := exists_find? hid
    obtain ⟨hn, hnid⟩ := find?_eq_some_iff.mp hfind
    rw [walkFrom, hfind, h.reached_eq hfind hreach]
    dsimp only
    congr 1
    split
    · rename_i hdown
      rw [h.children n hn, hnid, List.flatMap_def, List.flatMap_def]
      refine congrArg List.flatten (List.map_congr_left fun c hc => ?_)
      obtain ⟨hmem, hparent⟩ := mem_childrenOf_iff.mp hc
      rw [← TaskId.depth_of_parent? hparent]
      refine ih hmem (hreach.child hfind hdown hparent) fun m hm => ?_
      have hlt := hlevels m hm
      rw [TaskId.length_of_parent? hparent]
      omega
    · rfl

theorem Coherent.walk_eq (h : t.Coherent) : t.walk descend = t.roots.flatMap (t.reached descend) := by
  unfold walk
  rw [List.flatMap_def, List.flatMap_def]
  refine congrArg List.flatten (List.map_congr_left fun id hid => ?_)
  obtain ⟨hmem, htop⟩ := h.mem_roots_iff.mp hid
  rw [← TaskId.depth_of_top htop]
  refine h.walkFrom_eq hmem (reaches_of_top htop) fun n hn => ?_
  have hle := length_le_height hn
  have hpos : 0 < id.segments.length := List.length_pos_iff.mpr id.nonempty
  omega

/-- **A walk comes to the nodes that are reached**, in their order. -/
theorem Coherent.walk_eq_filter (h : t.Coherent) (descend : Node → Bool) :
    t.walk descend =
      (t.nodes.filter fun n => t.Reaches descend n.id).map fun n => (n.id.depth, n) :=
  h.walk_eq.trans h.flatMap_reached_roots

end Outline

/-! ## Move by move -/

/-- A walk under way. -/
structure Walker where
  /-- The identifiers to which the walk has still to come, with their depth, the next one
  first. -/
  stack : List (Nat × TaskId)
  /-- The nodes to which it has come, with their depth, in order. -/
  out : List (Nat × Node)

namespace Walker

/-- A walk that has not begun. -/
def start (t : Outline) : Walker := ⟨t.roots.map fun id => (0, id), []⟩

/-- Comes to the next node, and puts its children on the stack if the walk goes down
there.  What has no node is passed over, and when the stack is empty the walk stays where it
is. -/
def next (t : Outline) (descend : Node → Bool) (s : Walker) : Walker :=
  match s.stack with
  | [] => s
  | (depth, id) :: rest =>
    match t.find? id with
    | none => { s with stack := rest }
    | some n =>
      { stack := (if descend n then n.children.map fun child => (depth + 1, child) else []) ++ rest
        out := s.out ++ [(depth, n)] }

/-- How far a walk has come: it has been to `done`, and `rest` is what is reached from the
identifiers on the stack, which are those of `todo`. -/
structure At (t : Outline) (descend : Node → Bool) (done rest : List (Nat × Node))
    (todo : List TaskId) (s : Walker) : Prop where
  stack : s.stack = todo.map fun id => (id.depth, id)
  out : s.out = done
  known : ∀ id ∈ todo, id ∈ t.ids ∧ t.Reaches descend id
  reached : todo.flatMap (t.reached descend) = rest

variable {t : Outline} {descend : Node → Bool} {done rest : List (Nat × Node)}
  {todo : List TaskId} {v : Nat × Node} {s : Walker}

theorem at_start (h : t.Coherent) : At t descend [] (t.walk descend) t.roots (start t) where
  stack := by
    refine List.map_congr_left fun id hid => ?_
    rw [TaskId.depth_of_top (h.mem_roots_iff.mp hid).2]
  out := rfl
  known id hid := by
    obtain ⟨hmem, htop⟩ := h.mem_roots_iff.mp hid
    exact ⟨hmem, Outline.reaches_of_top htop⟩
  reached := h.walk_eq.symm

/-- **A move comes to the next node**, and what is reached from the stack is then the rest. -/
theorem At.next (h : t.Coherent) (hs : At t descend done (v :: rest) todo s) :
    ∃ todo', At t descend (done ++ [v]) rest todo' (s.next t descend) := by
  have hreached := hs.reached
  cases todo with
  | nil => cases hreached
  | cons id more =>
    obtain ⟨⟨hid, hreach⟩, hmore⟩ := List.forall_mem_cons.mp hs.known
    obtain ⟨n, hfind⟩ := Outline.exists_find? hid
    obtain ⟨hn, hnid⟩ := Outline.find?_eq_some_iff.mp hfind
    rw [List.flatMap_cons, h.reached_eq hfind hreach, List.cons_append] at hreached
    obtain ⟨rfl, hrest⟩ := List.cons.inj hreached
    have hnext : s.next t descend =
        ⟨(if descend n then n.children.map fun child => (id.depth + 1, child) else []) ++
          more.map fun id => (id.depth, id), s.out ++ [(id.depth, n)]⟩ := by
      have hstack := hs.stack
      rw [List.map_cons] at hstack
      simp only [Walker.next, hstack, hfind]
    rw [hnext]
    cases hdown : descend n with
    | false =>
      rw [hdown] at hrest
      exact ⟨more, rfl, by rw [hs.out], hmore, hrest⟩
    | true =>
      rw [hdown] at hrest
      have hparent : ∀ c ∈ n.children, c ∈ t.ids ∧ c.parent? = some id := by
        intro c hc
        rw [h.children n hn, hnid] at hc
        exact Outline.mem_childrenOf_iff.mp hc
      refine ⟨n.children ++ more, ?_, by rw [hs.out], ?_, ?_⟩
      · show n.children.map _ ++ _ = _
        rw [List.map_append]
        congr 1
        exact List.map_congr_left fun c hc => by rw [TaskId.depth_of_parent? (hparent c hc).2]
      · intro c hc
        rcases List.mem_append.mp hc with hc | hc
        · exact ⟨(hparent c hc).1, hreach.child hfind hdown (hparent c hc).2⟩
        · exact hmore c hc
      · rw [List.flatMap_append]
        exact hrest

/-- As many moves as there are nodes left come to all of them, and nothing is left on the
stack. -/
theorem At.after (h : t.Coherent) (hs : At t descend done rest todo s) :
    (Walker.next t descend)^[rest.length] s = ⟨[], done ++ rest⟩ := by
  induction rest generalizing done todo s with
  | nil =>
    have hnone : todo = [] := by
      cases todo with
      | nil => rfl
      | cons id more =>
        obtain ⟨⟨hid, hreach⟩, -⟩ := List.forall_mem_cons.mp hs.known
        obtain ⟨hnil, -⟩ := List.append_eq_nil_iff.mp hs.reached
        exact absurd hnil (h.reached_ne_nil hid hreach)
    obtain ⟨stack, out⟩ := s
    obtain rfl : stack = [] := by simpa [hnone] using hs.stack
    obtain rfl : out = done := hs.out
    rw [List.append_nil]
    rfl
  | cons v rest ih =>
    obtain ⟨todo', hnext⟩ := hs.next h
    have hrun := ih hnext
    rwa [List.append_assoc, List.singleton_append] at hrun

end Walker

/-- **A walk comes to the nodes in their order.**  In the outline of records, a walk that
goes down where `descend` holds comes to the nodes above which there is none where it fails,
each once and in the order of the identifiers, with a depth one less than the number of
segments.  A walk with a stack makes one move for each of them, and comes to the same
nodes.  A walk that goes down everywhere comes to every node. -/
theorem Outline.walk_in_order (records : List Record) (descend : Node → Bool) :
    let t := (build records).value
    t.walk descend = ((t.nodes.filter fun n => ∀ m ∈ t.nodes,
        m.id.segments <+: n.id.segments → m.id ≠ n.id → descend m = true).map
      fun n => (n.id.segments.length - 1, n)) ∧
    ((t.walk descend).map fun v => v.2.id).Pairwise (· < ·) ∧
    (Walker.next t descend)^[(t.walk descend).length] (Walker.start t) = ⟨[], t.walk descend⟩ ∧
    (t.walk fun _ => true).map Prod.snd = t.nodes := by
  intro t
  have h : t.Coherent := coherent_build records
  refine ⟨h.walk_eq_filter descend, ?_, (Walker.at_start h).after h, ?_⟩
  · rw [h.walk_eq_filter, List.map_map]
    exact List.pairwise_map.mpr (t.ascending.filter _)
  · have hall : ∀ n ∈ t.nodes, t.Reaches (fun _ => true) n.id := fun _ _ _ _ _ _ => rfl
    rw [h.walk_eq_filter, List.filter_eq_self.mpr (by simpa using hall), List.map_map]
    exact List.map_id t.nodes

end TaskOutline
