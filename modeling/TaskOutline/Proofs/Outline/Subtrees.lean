import TaskOutline.Proofs.Identifier.Order
import TaskOutline.Proofs.Outline.Closure

/-! # Subtrees one after the other

In the order of identifiers a node stands directly before all that lies under it, and
what lies under it are the subtrees of its children one after the other
(`subtree_eq`); all nodes together are the subtrees of the roots (`flatMap_subtree_roots`).
Both are cases of `flatMap_subtree`, about what lies under any beginning.

It needs that the identifiers are in order and that with each there are those above it
(`Outline.Coherent`), as in every outline that is built from records.
-/
namespace TaskOutline

/-- Those of the identifiers that begin with one, itself included. -/
def subtree (ids : List TaskId) (id : TaskId) : List TaskId :=
  ids.filter fun x => id.segments <+: x.segments

/-- Those of the identifiers that go on from a beginning. -/
def under (ids : List TaskId) (above : List Nat) : List TaskId :=
  ids.filter fun x => above <+: x.segments ∧ above ≠ x.segments

/-- Those of the identifiers that go on from a beginning by one segment. -/
def directlyUnder (ids : List TaskId) (above : List Nat) : List TaskId :=
  ids.filter fun x => x.segments.dropLast = above

theorem mem_subtree_iff {ids : List TaskId} {id x : TaskId} :
    x ∈ subtree ids id ↔ x ∈ ids ∧ id.segments <+: x.segments := by
  rw [subtree, List.mem_filter, decide_eq_true_eq]

theorem mem_under_iff {ids : List TaskId} {above : List Nat} {x : TaskId} :
    x ∈ under ids above ↔ x ∈ ids ∧ above <+: x.segments ∧ above ≠ x.segments := by
  rw [under, List.mem_filter, decide_eq_true_eq]

theorem mem_directlyUnder_iff {ids : List TaskId} {above : List Nat} {x : TaskId} :
    x ∈ directlyUnder ids above ↔ x ∈ ids ∧ x.segments.dropLast = above := by
  rw [directlyUnder, List.mem_filter, decide_eq_true_eq]

/-! ## Identifiers and their beginnings -/

theorem TaskId.length_eq_of_dropLast {id : TaskId} {above : List Nat}
    (h : id.segments.dropLast = above) : id.segments.length = above.length + 1 := by
  have hpos : 0 < id.segments.length := List.length_pos_iff.mpr id.nonempty
  rw [← h, List.length_dropLast]
  omega

/-- From a proper beginning one comes down to the identifier by way of one directly under
the beginning. -/
theorem TaskId.exists_directlyUnder {x : TaskId} {above : List Nat} (h : above <+: x.segments)
    (hne : above ≠ x.segments) :
    ∃ c : TaskId, c.segments.dropLast = above ∧ c.segments <+: x.segments := by
  obtain ⟨rest, hrest⟩ := h
  cases rest with
  | nil => exact absurd (by simpa using hrest) hne
  | cons n rest =>
    have hbegins : above ++ [n] <+: x.segments := ⟨rest, by simp [← hrest]⟩
    have hrange : ∀ m ∈ above ++ [n], IsSegment m := fun m hm => x.inRange m (hbegins.subset hm)
    exact ⟨⟨above ++ [n], by simp, hrange⟩, List.dropLast_concat, hbegins⟩

theorem TaskId.parent?_eq_some_iff {id p : TaskId} :
    id.parent? = some p ↔ id.segments.dropLast = p.segments := by
  constructor
  · exact fun h => (segments_of_parent? h).symm
  · intro h
    have hne : id.segments.dropLast ≠ [] := h ▸ p.nonempty
    rw [parent?, dif_neg hne]
    exact congrArg some (ext h)

theorem TaskId.parent?_eq_none_iff {id : TaskId} :
    id.parent? = none ↔ id.segments.dropLast = [] := by
  constructor
  · exact dropLast_of_top
  · intro h
    rw [parent?, dif_pos h]

/-! ## What lies under a beginning -/

variable {ids : List TaskId}

/-- **What lies under a beginning are the subtrees of those directly under it**, one
after the other. -/
theorem flatMap_subtree (hids : ids.Pairwise (· < ·))
    (hclosed : ∀ id ∈ ids, ∀ a : TaskId, a.segments <+: id.segments → a ∈ ids) (above : List Nat) :
    (directlyUnder ids above).flatMap (subtree ids) = under ids above := by
  have hsubtrees : Ascending (fun id => id) ((directlyUnder ids above).flatMap (subtree ids)) := by
    refine List.pairwise_flatMap.mpr ⟨fun a _ => hids.filter _, ?_⟩
    refine List.Pairwise.imp_of_mem ?_ (hids.filter _)
    intro a b ha hb hlt x hx y hy
    -- the two are of the same level, so that one subtree is over before the other begins
    have hlength : a.segments.length = b.segments.length := by
      rw [TaskId.length_eq_of_dropLast (mem_directlyUnder_iff.mp ha).2,
        TaskId.length_eq_of_dropLast (mem_directlyUnder_iff.mp hb).2]
    exact TaskId.lt_of_prefix_of_prefix hlt hlength (mem_subtree_iff.mp hx).2
      (mem_subtree_iff.mp hy).2
  refine hsubtrees.ext (hids.filter _) fun x => ?_
  rw [List.mem_flatMap, mem_under_iff]
  constructor
  · rintro ⟨c, hc, hx⟩
    obtain ⟨-, rfl⟩ := mem_directlyUnder_iff.mp hc
    obtain ⟨hmem, hbegins⟩ := mem_subtree_iff.mp hx
    refine ⟨hmem, (List.dropLast_prefix _).trans hbegins, fun heq => ?_⟩
    have hlength := hbegins.length_le
    have hone : c.segments.length = c.segments.dropLast.length + 1 :=
      TaskId.length_eq_of_dropLast rfl
    rw [← heq] at hlength
    omega
  · rintro ⟨hmem, hbegins, hne⟩
    obtain ⟨c, hc, hcx⟩ := TaskId.exists_directlyUnder hbegins hne
    exact ⟨c, mem_directlyUnder_iff.mpr ⟨hclosed x hmem c hcx, hc⟩,
      mem_subtree_iff.mpr ⟨hmem, hcx⟩⟩

namespace Outline

/-- An outline hangs together: with an identifier it has all those above it, and each
node knows those one level down, and the outline those at the top. -/
structure Coherent (t : Outline) : Prop where
  closed : ∀ id ∈ t.ids, ∀ a : TaskId, a.segments <+: id.segments → a ∈ t.ids
  children : ∀ n ∈ t.nodes, n.children = childrenOf t.ids n.id
  roots : t.roots = t.ids.filter fun id => id.parent?.isNone

theorem coherent_build (records : List Record) : (build records).value.Coherent where
  closed id hid a ha := by
    have hcloses := (closes_build records).ids
    rw [map_fst_entries] at hcloses
    obtain ⟨r, hr, hbegins⟩ := (hcloses id).mp hid
    exact (hcloses a).mpr ⟨r, hr, ha.trans hbegins⟩
  children n hn := by
    obtain ⟨e, -, rfl⟩ := List.mem_map.mp hn
    show childrenOf ((Roster.ofRecords records).value.entries.map Prod.fst) e.1 = _
    rw [← map_fst_entries, entries_build]
  roots := by
    show ((Roster.ofRecords records).value.entries.map Prod.fst).filter _ = _
    rw [← map_fst_entries, entries_build]

theorem mem_childrenOf_iff {ids : List TaskId} {id child : TaskId} :
    child ∈ childrenOf ids id ↔ child ∈ ids ∧ child.parent? = some id := by
  rw [childrenOf, List.mem_filter, decide_eq_true_eq]

variable {t : Outline}

theorem Coherent.mem_roots_iff (h : t.Coherent) {id : TaskId} :
    id ∈ t.roots ↔ id ∈ t.ids ∧ id.parent? = none := by
  rw [h.roots, List.mem_filter, Option.isNone_iff_eq_none]

theorem Coherent.exists_parent (h : t.Coherent) {n : Node} (hn : n ∈ t.nodes)
    {p : TaskId} (hp : n.id.parent? = some p) : ∃ m ∈ t.nodes, m.id = p := by
  refine List.mem_map.mp (h.closed n.id (List.mem_map_of_mem hn) p ?_)
  rw [TaskId.segments_of_parent? hp]
  exact List.dropLast_prefix _

/-- A node stands before its children's subtrees, and these come one after the other. -/
theorem Coherent.subtree_eq (h : t.Coherent) {id : TaskId} (hid : id ∈ t.ids) :
    subtree t.ids id = id :: (childrenOf t.ids id).flatMap (subtree t.ids) := by
  have hids : t.ids.Pairwise (· < ·) := t.ascending_ids
  have hchildren : childrenOf t.ids id = directlyUnder t.ids id.segments := by
    refine List.filter_congr fun x _ => ?_
    simp only [TaskId.parent?_eq_some_iff]
  rw [hchildren, flatMap_subtree hids h.closed]
  have hbefore : Ascending (fun id => id) (id :: under t.ids id.segments) := by
    refine List.pairwise_cons.mpr ⟨fun x hx => ?_, hids.filter _⟩
    obtain ⟨-, hbegins, hne⟩ := mem_under_iff.mp hx
    exact TaskId.lt_of_prefix hbegins fun heq => hne (congrArg TaskId.segments heq)
  have hsubtree : Ascending (fun id => id) (subtree t.ids id) := hids.filter _
  refine hsubtree.ext hbefore fun x => ?_
  rw [mem_subtree_iff, List.mem_cons, mem_under_iff]
  constructor
  · rintro ⟨hx, hbegins⟩
    by_cases heq : x = id
    · exact .inl heq
    · exact .inr ⟨hx, hbegins, fun hsegments => heq (TaskId.ext hsegments.symm)⟩
  · rintro (rfl | ⟨hx, hbegins, -⟩)
    · exact ⟨hid, List.prefix_rfl⟩
    · exact ⟨hx, hbegins⟩

/-- The subtrees of the roots are all there is. -/
theorem Coherent.flatMap_subtree_roots (h : t.Coherent) :
    t.roots.flatMap (subtree t.ids) = t.ids := by
  have hids : t.ids.Pairwise (· < ·) := t.ascending_ids
  have hroots : t.roots = directlyUnder t.ids [] := by
    rw [h.roots]
    refine List.filter_congr fun x _ => ?_
    rw [Bool.eq_iff_iff, Option.isNone_iff_eq_none, TaskId.parent?_eq_none_iff, decide_eq_true_eq]
  rw [hroots, flatMap_subtree hids h.closed]
  refine List.filter_eq_self.mpr fun x _ => ?_
  simpa using x.nonempty.symm

end Outline

end TaskOutline
