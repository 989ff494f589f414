import TaskOutline.Identifier.Ascending

/-! # Finite sets of identifiers

A set is kept as its elements in ascending order, so that two sets with the
same elements are equal and the elements come out in order.
-/
namespace TaskOutline

/-- A finite set of identifiers. -/
structure IdSet where
  /-- The elements in ascending order. -/
  toList : List TaskId
  ascending : Ascending (fun id => id) toList
deriving DecidableEq

namespace IdSet

theorem mem_place {id y : TaskId} {xs : List TaskId} :
    y ∈ Ascending.place (fun x => x) id xs ↔ y = id ∨ y ∈ xs := by
  induction xs with
  | nil => simp [Ascending.place]
  | cons x xs ih =>
    unfold Ascending.place
    split
    · simp
    · split
      · rename_i h
        subst h
        simp
      · simp [ih, or_left_comm]

/-- The set without elements. -/
def empty : IdSet := ⟨[], Ascending.nil⟩

instance : EmptyCollection IdSet := ⟨empty⟩

instance : Inhabited IdSet := ⟨empty⟩

instance : Membership TaskId IdSet := ⟨fun s id => id ∈ s.toList⟩

instance (id : TaskId) (s : IdSet) : Decidable (id ∈ s) :=
  inferInstanceAs (Decidable (id ∈ s.toList))

/-- Adds an identifier. -/
def insert (s : IdSet) (id : TaskId) : IdSet :=
  ⟨Ascending.place (fun x => x) id s.toList, Ascending.ascending_place s.ascending⟩

/-- The set of the identifiers in a list. -/
def ofList (ids : List TaskId) : IdSet :=
  ids.foldl insert empty

/-- A set without elements. -/
def isEmpty (s : IdSet) : Bool := s.toList.isEmpty

theorem mem_def {id : TaskId} {s : IdSet} : id ∈ s ↔ id ∈ s.toList := Iff.rfl

@[simp] theorem not_mem_empty (id : TaskId) : ¬ id ∈ empty := by
  simp [mem_def, empty]

@[simp] theorem mem_insert {s : IdSet} {id y : TaskId} : y ∈ s.insert id ↔ y = id ∨ y ∈ s :=
  mem_place

@[simp] theorem mem_ofList {ids : List TaskId} {y : TaskId} : y ∈ ofList ids ↔ y ∈ ids := by
  suffices h : ∀ s : IdSet, y ∈ ids.foldl insert s ↔ y ∈ s ∨ y ∈ ids by
    simpa [ofList] using h empty
  induction ids with
  | nil => simp
  | cons id ids ih =>
    intro s
    rw [List.foldl_cons, ih, mem_insert, List.mem_cons, or_assoc, or_left_comm]

/-- Two sets are equal when they have the same elements. -/
theorem ext {s t : IdSet} (h : ∀ id, id ∈ s ↔ id ∈ t) : s = t := by
  obtain ⟨xs, hx⟩ := s
  obtain ⟨ys, hy⟩ := t
  congr
  simp only [mem_def] at h
  induction xs generalizing ys with
  | nil =>
    cases ys with
    | nil => rfl
    | cons y ys => exact absurd ((h y).mpr (by simp)) (by simp)
  | cons x xs ih =>
    cases ys with
    | nil => exact absurd ((h x).mp (by simp)) (by simp)
    | cons y ys =>
      obtain ⟨hx, hxs⟩ := List.pairwise_cons.mp hx
      obtain ⟨hy, hys⟩ := List.pairwise_cons.mp hy
      have hxy : x = y := by
        rcases List.mem_cons.mp ((h x).mp (by simp)) with hxy | hx'
        · exact hxy
        rcases List.mem_cons.mp ((h y).mpr (by simp)) with hyx | hy'
        · exact hyx.symm
        exact absurd (TaskId.lt_trans (hx y hy') (hy x hx')) (TaskId.lt_irrefl x)
      subst hxy
      congr 1
      refine ih hxs ys hys fun id => ?_
      have := h id
      simp only [List.mem_cons] at this
      constructor
      · intro hm
        rcases this.mp (Or.inr hm) with rfl | hm'
        · exact absurd (hx _ hm) (TaskId.lt_irrefl _)
        · exact hm'
      · intro hm
        rcases this.mpr (Or.inr hm) with rfl | hm'
        · exact absurd (hy _ hm) (TaskId.lt_irrefl _)
        · exact hm'

end IdSet

end TaskOutline
