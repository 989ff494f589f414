import Mathlib.Logic.Function.Iterate
import TaskOutline.Proofs.Outline.Inheritance

/-! # Inheritance with a stack

`Outline.settle` goes through the nodes in order.  The same values are found here by a
walk down the outline that keeps a stack of the nodes that are still to be visited, each
with the values that hold for its parent.  A move takes the first of them, settles the
node and puts its children on the stack in front of the others, with its own values.

While the pass is under way the nodes in front are settled, the others are as they were,
and those are the subtrees of what is on the stack, one after the other (`Pass.At`).
A move settles the first of them and keeps the rest so (`Pass.At.next`).  That is why a
pass visits the nodes in their order, each once, and ends after as many moves as there
are nodes with the settled outline (`Pass.At.after`).
-/
namespace TaskOutline

/-- A visit that is still to be made, with the values that hold for the node's parent. -/
structure Visit where
  id : TaskId
  priority : Option Priority
  deadline : Option Date

/-- A pass through an outline. -/
structure Pass where
  /-- The outline with the nodes that were visited settled. -/
  outline : Outline
  /-- The visits that are still to be made, the next one first. -/
  stack : List Visit
  /-- The identifiers of the nodes that were visited, in order. -/
  visited : List TaskId

/-- The node with the values that hold for it, given those that hold for its parent. -/
def Visit.settle (v : Visit) (n : Node) : Node :=
  { n with
    priority := n.declaredPriority.resolve v.priority
    deadline := n.declaredDeadline.resolve v.deadline }

/-- The visits to a node's children, with the values of the node. -/
def Node.visits (n : Node) : List Visit := n.children.map fun id => ⟨id, n.priority, n.deadline⟩

/-- The outline with a node in place of the one of its identifier. -/
def Outline.put (t : Outline) (n : Node) : Outline :=
  { t with
    nodes := Ascending.place Node.id n t.nodes
    ascending := Ascending.ascending_place t.ascending }

namespace Pass

/-- A pass that has not begun.  Nothing is inherited at the top. -/
def start (t : Outline) : Pass := ⟨t, t.roots.map fun id => ⟨id, none, none⟩, []⟩

/-- Makes the next visit.  What has no node is passed over, and when no visits are left
the pass stays as it is. -/
def next (s : Pass) : Pass :=
  match s.stack with
  | [] => s
  | v :: rest =>
    match s.outline.find? v.id with
    | none => { s with stack := rest }
    | some n =>
      { outline := s.outline.put (v.settle n)
        stack := (v.settle n).visits ++ rest
        visited := s.visited ++ [v.id] }

theorem next_of_visit {s : Pass} {v : Visit} {rest : List Visit} {n : Node}
    (hstack : s.stack = v :: rest) (hfind : s.outline.find? v.id = some n) :
    s.next = ⟨s.outline.put (v.settle n), (v.settle n).visits ++ rest, s.visited ++ [v.id]⟩ := by
  simp only [next, hstack, hfind]

end Pass

/-- An element put into an ascending list takes the place of the one of its identifier. -/
theorem Ascending.place_append {α : Type} {key : α → TaskId} {before after : List α} {x y : α}
    (h : Ascending key (before ++ y :: after)) (hkey : key x = key y) :
    place key x (before ++ y :: after) = before ++ x :: after := by
  induction before with
  | nil => simp [place, hkey, TaskId.lt_irrefl]
  | cons z zs ih =>
    obtain ⟨hfirst, hrest⟩ := List.pairwise_cons.mp h
    have hlt : key z < key x := hkey ▸ hfirst y (by simp)
    rw [List.cons_append, place, if_neg (TaskId.lt_asymm hlt), if_neg (TaskId.ne_of_lt hlt).symm,
      ih hrest, List.cons_append]

namespace Outline

/-- The visit to a node with the values that its parent has in the settled outline. -/
def visit (t : Outline) (id : TaskId) : Visit :=
  let parent := id.parent?.bind t.settle.find?
  ⟨id, parent.bind Node.priority, parent.bind Node.deadline⟩

variable {t : Outline}

/-- Such a visit settles the node. -/
theorem settle_visit (n : Node) : (t.visit n.id).settle n = t.settled n := rfl

/-- A settled node hands its values on. -/
theorem Coherent.visits_settled (h : t.Coherent) {n : Node} (hn : n ∈ t.nodes) :
    (t.settled n).visits = (childrenOf t.ids n.id).map t.visit := by
  show n.children.map _ = _
  rw [h.children n hn]
  refine List.map_congr_left fun c hc => ?_
  obtain ⟨-, hparent⟩ := List.mem_filter.mp hc
  simp only [visit, of_decide_eq_true hparent, Option.bind_some, find?_settle hn]

theorem Coherent.visits_roots (h : t.Coherent) :
    (Pass.start t).stack = t.roots.map t.visit := by
  refine List.map_congr_left fun id hid => ?_
  rw [h.roots] at hid
  obtain ⟨-, htop⟩ := List.mem_filter.mp hid
  rw [Option.isNone_iff_eq_none] at htop
  simp only [visit, htop, Option.bind_none]

end Outline

namespace Pass

/-- How far a pass has come: the nodes in front are settled, the others are as they were,
and what is on the stack are the visits to `todo`. -/
structure At (t : Outline) (done rest : List Node) (todo : List TaskId) (s : Pass) : Prop where
  split : done ++ rest = t.nodes
  nodes : s.outline.nodes = done.map t.settled ++ rest
  roots : s.outline.roots = t.roots
  visited : s.visited = done.map Node.id
  stack : s.stack = todo.map t.visit
  known : todo ⊆ t.ids
  /-- What is still to be settled lies under what is still to be visited. -/
  subtrees : todo.flatMap (subtree t.ids) = rest.map Node.id

variable {t : Outline} {done rest : List Node} {todo : List TaskId} {n : Node} {s : Pass}

theorem at_start (h : t.Coherent) : At t [] t.nodes t.roots (start t) where
  split := rfl
  nodes := rfl
  roots := rfl
  visited := rfl
  stack := h.visits_roots
  known := by
    rw [h.roots]
    exact fun _ => List.mem_of_mem_filter
  subtrees := h.flatMap_subtree_roots

/-- **A move settles the next node.** -/
theorem At.next (h : t.Coherent) (hs : At t done (n :: rest) todo s) :
    ∃ todo', At t (done ++ [n]) rest todo' s.next := by
  have hsubtrees := hs.subtrees
  cases todo with
  | nil => cases hsubtrees
  | cons id more =>
    obtain ⟨hid, hmore⟩ := List.cons_subset.mp hs.known
    -- the first identifier to be visited is that of the next node, before its children
    rw [List.flatMap_cons, h.subtree_eq hid, List.cons_append, List.map_cons] at hsubtrees
    obtain ⟨rfl, hrest⟩ := List.cons.inj hsubtrees
    have hn : n ∈ t.nodes := hs.split ▸ List.mem_append_right done List.mem_cons_self
    have hfind : s.outline.find? n.id = some n := by
      refine Outline.find?_eq_some_iff.mpr ⟨?_, rfl⟩
      rw [hs.nodes]
      exact List.mem_append_right _ List.mem_cons_self
    have hnext : s.next = ⟨s.outline.put (t.settled n),
        (t.settled n).visits ++ more.map t.visit, s.visited ++ [n.id]⟩ := by
      have hmove := next_of_visit hs.stack hfind
      rwa [Outline.settle_visit] at hmove
    have hput : (s.outline.put (t.settled n)).nodes =
        done.map t.settled ++ t.settled n :: rest := by
      have hascending := s.outline.ascending
      show Ascending.place Node.id (t.settled n) s.outline.nodes = _
      rw [hs.nodes] at hascending ⊢
      exact hascending.place_append rfl
    refine ⟨Outline.childrenOf t.ids n.id ++ more, ?_⟩
    rw [hnext]
    exact {
      split := by rw [← hs.split, List.append_assoc, List.singleton_append]
      nodes := by simpa using hput
      roots := hs.roots
      visited := by simp [hs.visited]
      stack := by rw [h.visits_settled hn, List.map_append]
      known := List.append_subset.mpr ⟨fun _ => List.mem_of_mem_filter, hmore⟩
      subtrees := by rw [List.flatMap_append, hrest] }

/-- As many moves as there are nodes left settle all of them. -/
theorem At.after (h : t.Coherent) (hs : At t done rest todo s) :
    ∃ todo', At t t.nodes [] todo' (Pass.next^[rest.length] s) := by
  induction rest generalizing done todo s with
  | nil =>
    refine ⟨todo, ?_⟩
    rw [← hs.split, List.append_nil]
    exact hs
  | cons n rest ih =>
    obtain ⟨todo', hnext⟩ := hs.next h
    exact ih hnext

/-- When no node is left the outline is settled, and nothing is on the stack. -/
theorem At.eq_of_done (h : t.Coherent) (hs : At t t.nodes [] todo s) :
    s = ⟨t.settle, [], t.ids⟩ := by
  have hempty : todo = [] := by
    cases todo with
    | nil => rfl
    | cons id more =>
      obtain ⟨hid, -⟩ := List.cons_subset.mp hs.known
      have hsubtrees := hs.subtrees
      rw [List.flatMap_cons, h.subtree_eq hid] at hsubtrees
      cases hsubtrees
  obtain ⟨⟨nodes, roots, ascending⟩, stack, visited⟩ := s
  obtain rfl : nodes = t.settle.nodes := by
    rw [t.nodes_settle]
    simpa using hs.nodes
  obtain rfl : roots = t.roots := hs.roots
  obtain rfl : visited = t.ids := hs.visited
  obtain rfl : stack = [] := by simpa [hempty] using hs.stack
  rfl

/-- **A pass visits every node once, in order, and settles the outline.** -/
theorem iterate_next_start (h : t.Coherent) :
    Pass.next^[t.size] (start t) = ⟨t.settle, [], t.ids⟩ := by
  obtain ⟨todo, hdone⟩ := (at_start h).after h
  exact hdone.eq_of_done h

end Pass

/-! ## What stays as it is -/

/-- The node without the values that hold for it. -/
def Node.unsettled (n : Node) : Node := { n with priority := none, deadline := none }

namespace Outline

/-- The outline without the values that hold for its nodes. -/
def unsettled (t : Outline) : Outline :=
  { t with
    nodes := t.nodes.map Node.unsettled
    ascending := Ascending.congr (by rw [List.map_map]; rfl) t.ascending }

theorem unsettled_settle (t : Outline) : t.settle.unsettled = t.unsettled := by
  have hnodes : t.settle.nodes.map Node.unsettled = t.nodes.map Node.unsettled := by
    rw [nodes_settle, List.map_map]
    rfl
  simp only [unsettled, hnodes]
  rfl

/-- An outline that was just built has no values yet. -/
theorem unsettled_build (records : List Record) :
    (build records).value.unsettled = (build records).value := by
  have hnodes : (build records).value.nodes.map Node.unsettled = (build records).value.nodes := by
    refine (List.map_congr_left fun n hn => ?_).trans (List.map_id _)
    obtain ⟨e, -, rfl⟩ := List.mem_map.mp hn
    rfl
  simp only [unsettled, hnodes]

/-- **What a node inherits comes from the nearest declaration.**  In the outline of
records, settled, a node has the priority that is declared under the longest beginning of
its identifier that declares one, or none if that declares `none` or nothing is declared
at or above it; and so it is, independently, with its deadline.  A pass from the roots
down visits every node once, in order, and leaves nothing to be visited.  What it gives is
the settled outline, in which nothing but these values differs from the outline as it was
built. -/
theorem settle_nearest (records : List Record) :
    let t := (build records).value
    (∀ n ∈ t.settle.nodes,
      (∀ v, t.Inherits Record.priority n.id v ↔ n.priority = v) ∧
        ∀ v, t.Inherits Record.deadline n.id v ↔ n.deadline = v) ∧
    Pass.next^[t.size] (Pass.start t) = ⟨t.settle, [], t.ids⟩ ∧ t.ids.Nodup ∧
    t.settle.unsettled = t := by
  intro t
  have h : t.Coherent := coherent_build records
  refine ⟨fun n hn => ⟨fun v => ?_, fun v => ?_⟩, Pass.iterate_next_start h, t.ids_nodup, ?_⟩
  · exact h.inherits_iff (fun _ _ => rfl) hn v
  · exact h.inherits_iff (fun _ _ => rfl) hn v
  · rw [unsettled_settle, unsettled_build]

end Outline

end TaskOutline
