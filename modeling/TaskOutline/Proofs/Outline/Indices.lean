import Mathlib.Data.List.Nodup
import TaskOutline.Proofs.Outline.Subtrees

/-! # The lists of children and roots

An outline has every identifier in one list: that of its parent's children, or that of the
roots if it has no parent (`Outline.Indexed`).

The lists can be made in one pass.  Going through the identifiers in order, each one is put
at the end of its parent's list, and nothing is ever sorted (`Linking.enter`).  After each
identifier the lists are those of the identifiers so far (`Linking.enter_upTo`).  An
identifier whose parent has no node would be lost, with all that lies under it; there is no
such identifier, since with each one an outline has those above it.
-/
namespace TaskOutline

/-! ## The last segment -/

namespace TaskId

/-- The number of an identifier among those under the same one. -/
def position (id : TaskId) : Nat := id.segments.getLast id.nonempty

theorem parent?_eq_some_iff_concat {id p : TaskId} :
    id.parent? = some p ↔ ∃ k, id.segments = p.segments ++ [k] := by
  rw [parent?_eq_some_iff]
  constructor
  · intro h
    exact ⟨id.position, h ▸ segments_eq_concat id⟩
  · rintro ⟨k, h⟩
    rw [h, List.dropLast_concat]

theorem parent?_eq_none_iff_singleton {id : TaskId} :
    id.parent? = none ↔ ∃ k, id.segments = [k] := by
  rw [parent?_eq_none_iff]
  constructor
  · intro h
    refine ⟨id.position, ?_⟩
    have hconcat := segments_eq_concat id
    rwa [h, List.nil_append] at hconcat
  · rintro ⟨k, h⟩
    rw [h]
    rfl

/-- Under the same identifier the order is that of the positions. -/
theorem position_lt {a b : TaskId} (hsame : a.segments.dropLast = b.segments.dropLast)
    (hlt : a < b) : a.position < b.position := by
  by_contra hnot
  have ha : a.segments = a.segments.dropLast ++ [a.position] := segments_eq_concat a
  have hb : b.segments = a.segments.dropLast ++ [b.position] := hsame ▸ segments_eq_concat b
  by_cases heq : a.position = b.position
  · exact ne_of_lt hlt (ext (by rw [ha, heq, ← hb]))
  · have hgt : [b.position] < [a.position] := List.Lex.rel (by omega)
    have hback : b < a := by
      rw [lt_def, hb, ha, List.dropLast_concat]
      exact List.append_left_lt hgt
    exact lt_asymm hlt hback

end TaskId

/-! ## What the lists are -/

namespace Outline

/-- The lists of an outline are exact. -/
structure Indexed (t : Outline) : Prop where
  /-- The children of a node are the identifiers that go on from its own by one segment. -/
  children : ∀ n ∈ t.nodes, ∀ c, c ∈ n.children ↔
    c ∈ t.ids ∧ ∃ k, c.segments = n.id.segments ++ [k]
  /-- They ascend by this segment. -/
  children_ascend : ∀ n ∈ t.nodes, n.children.Pairwise fun a b => a.position < b.position
  /-- The roots are the identifiers of one segment. -/
  roots : ∀ c, c ∈ t.roots ↔ c ∈ t.ids ∧ ∃ k, c.segments = [k]
  /-- They ascend by it. -/
  roots_ascend : t.roots.Pairwise fun a b => a.position < b.position
  /-- Every parent has a node. -/
  parent : ∀ n ∈ t.nodes, ∀ p, n.id.parent? = some p → ∃ m ∈ t.nodes, m.id = p
  /-- A node is among the children of its parent, and of no other node. -/
  owner : ∀ n ∈ t.nodes, ∀ m ∈ t.nodes, n.id ∈ m.children ↔ n.id.parent? = some m.id
  /-- No two nodes have the same identifier. -/
  distinct : t.ids.Nodup
  /-- Among the roots and the children of all nodes each node stands once. -/
  once : (t.roots ++ t.nodes.flatMap Node.children).Perm t.ids

variable {t : Outline}

theorem Coherent.mem_children_iff (h : t.Coherent) {n : Node} (hn : n ∈ t.nodes) {c : TaskId} :
    c ∈ n.children ↔ c ∈ t.ids ∧ c.parent? = some n.id := by
  rw [h.children n hn, mem_childrenOf_iff]

/-- Identifiers of one level under the same beginning ascend by their positions. -/
theorem pairwise_position {ids : List TaskId} (hids : ids.Pairwise (· < ·)) (above : List Nat)
    (hsame : ∀ id ∈ ids, id.segments.dropLast = above) :
    ids.Pairwise fun a b => a.position < b.position := by
  refine hids.imp_of_mem fun {a b} ha hb hlt => ?_
  exact TaskId.position_lt ((hsame a ha).trans (hsame b hb).symm) hlt

theorem Coherent.nodup_index (h : t.Coherent) :
    (t.roots ++ t.nodes.flatMap Node.children).Nodup := by
  have hids : t.ids.Nodup := t.ids_nodup
  refine List.nodup_append'.mpr ⟨h.roots ▸ hids.filter _, ?_, ?_⟩
  · refine List.nodup_flatMap.mpr ⟨fun n hn => h.children n hn ▸ hids.filter _, ?_⟩
    refine t.ascending.imp_of_mem fun {n m} hn hm hlt => ?_
    -- a child of both would have two parents
    intro c hc hc'
    have hparent := ((h.mem_children_iff hn).mp hc).2
    rw [((h.mem_children_iff hm).mp hc').2] at hparent
    exact TaskId.ne_of_lt hlt (Option.some.inj hparent).symm
  · intro c hroot hchild
    obtain ⟨n, hn, hc⟩ := List.mem_flatMap.mp hchild
    have hparent := ((h.mem_children_iff hn).mp hc).2
    rw [(h.mem_roots_iff.mp hroot).2] at hparent
    cases hparent

theorem Coherent.mem_index_iff (h : t.Coherent) {c : TaskId} :
    c ∈ t.roots ++ t.nodes.flatMap Node.children ↔ c ∈ t.ids := by
  rw [List.mem_append, List.mem_flatMap, h.mem_roots_iff]
  constructor
  · rintro (⟨hc, -⟩ | ⟨n, hn, hc⟩)
    · exact hc
    · exact ((h.mem_children_iff hn).mp hc).1
  · intro hc
    cases hp : c.parent? with
    | none => exact .inl ⟨hc, rfl⟩
    | some p =>
      obtain ⟨n, hn, rfl⟩ := List.mem_map.mp hc
      obtain ⟨m, hm, rfl⟩ := h.exists_parent hn hp
      exact .inr ⟨m, hm, (h.mem_children_iff hm).mpr ⟨hc, hp⟩⟩

/-- **The lists of an outline that hangs together are exact.** -/
theorem Coherent.indexed (h : t.Coherent) : t.Indexed where
  children n hn c := by rw [h.mem_children_iff hn, TaskId.parent?_eq_some_iff_concat]
  children_ascend n hn := by
    have hids : t.ids.Pairwise (· < ·) := t.ascending_ids
    rw [h.children n hn]
    refine pairwise_position (hids.filter _) n.id.segments fun c hc => ?_
    exact TaskId.parent?_eq_some_iff.mp (mem_childrenOf_iff.mp hc).2
  roots c := by rw [h.mem_roots_iff, TaskId.parent?_eq_none_iff_singleton]
  roots_ascend := by
    have hids : t.ids.Pairwise (· < ·) := t.ascending_ids
    refine pairwise_position (h.roots ▸ hids.filter _) [] fun c hc => ?_
    exact TaskId.parent?_eq_none_iff.mp (h.mem_roots_iff.mp hc).2
  parent n hn p hp := h.exists_parent hn hp
  owner n hn m hm := by
    rw [h.mem_children_iff hm]
    exact ⟨fun hc => hc.2, fun hp => ⟨List.mem_map_of_mem hn, hp⟩⟩
  distinct := t.ids_nodup
  once := (List.perm_ext_iff_of_nodup h.nodup_index t.ids_nodup).mpr fun _ => h.mem_index_iff

end Outline

/-! ## One pass -/

/-- Lists that are being made: the roots, and the nodes with their children, so far. -/
structure Linking where
  roots : List TaskId
  nodes : List Node

namespace Linking

/-- The nodes without children, and no roots. -/
def start (nodes : List Node) : Linking := ⟨[], nodes.map fun n => { n with children := [] }⟩

/-- Puts an identifier at the end of the list of its parent, or of the roots if it has none.
If no node has the parent's identifier, it is in no list. -/
def enter (s : Linking) (id : TaskId) : Linking :=
  match id.parent? with
  | none => { s with roots := s.roots ++ [id] }
  | some p =>
    { s with
      nodes := s.nodes.map fun n =>
        if n.id = p then { n with children := n.children ++ [id] } else n }

/-- The lists when these identifiers have been entered. -/
def upTo (nodes : List Node) (ids : List TaskId) : Linking where
  roots := ids.filter fun id => id.parent?.isNone
  nodes := nodes.map fun n => { n with children := Outline.childrenOf ids n.id }

/-- **Entering an identifier gives the lists with one identifier more.** -/
theorem enter_upTo (nodes : List Node) (ids : List TaskId) (id : TaskId) :
    (upTo nodes ids).enter id = upTo nodes (ids ++ [id]) := by
  unfold enter upTo Outline.childrenOf
  cases hp : id.parent? with
  | none => simp [List.filter_append, hp]
  | some p =>
    simp only [List.filter_append, List.filter_cons, hp, Option.isNone_some, Bool.false_eq_true,
      if_false, List.filter_nil, List.append_nil, List.map_map, Linking.mk.injEq, true_and]
    refine List.map_congr_left fun n _ => ?_
    by_cases heq : n.id = p
    · simp [heq]
    · simp [heq, Ne.symm heq]

theorem foldl_enter_upTo (nodes : List Node) (ids more : List TaskId) :
    more.foldl enter (upTo nodes ids) = upTo nodes (ids ++ more) := by
  induction more generalizing ids with
  | nil => rw [List.append_nil]; rfl
  | cons id more ih =>
    rw [List.foldl_cons, enter_upTo, ih, List.append_assoc, List.singleton_append]

/-- **One pass makes the lists of an outline.** -/
theorem foldl_enter {t : Outline} (h : t.Coherent) :
    t.ids.foldl enter (start t.nodes) = ⟨t.roots, t.nodes⟩ := by
  have hstart : start t.nodes = upTo t.nodes [] := rfl
  have hnodes : (upTo t.nodes t.ids).nodes = t.nodes := by
    refine (List.map_congr_left fun n hn => ?_).trans (List.map_id _)
    show { n with children := Outline.childrenOf t.ids n.id } = n
    rw [← h.children n hn]
  rw [hstart, foldl_enter_upTo, List.nil_append]
  show Linking.mk _ (upTo t.nodes t.ids).nodes = _
  rw [hnodes, h.roots]

end Linking

/-- **The lists of children and roots are exact.**  In the outline of records the children of
a node are the identifiers that go on from its own by one segment, in the order of this
segment, and the roots are those of one segment.  Every node stands once: among the roots,
or among the children of its parent, which has a node.  A pass that puts the identifiers in
order at the end of the list of their parents makes these lists. -/
theorem Outline.build_indexed (records : List Record) :
    let t := (build records).value
    t.Indexed ∧ t.ids.foldl Linking.enter (Linking.start t.nodes) = ⟨t.roots, t.nodes⟩ := by
  intro t
  have h : t.Coherent := coherent_build records
  exact ⟨h.indexed, Linking.foldl_enter h⟩

end TaskOutline
