import Mathlib.Logic.Relation
import TaskOutline.Proofs.Outline.DependencyGraph

/-! # What dependencies reach

`Dependencies.explore` follows dependencies with a list of what is still to be seen.  It
comes to nothing that does not follow from the list (`mem_explore`), and leaves nothing
behind: with each task that it has newly seen it has seen all that the task depends on
(`explore_closed`).  So the tasks in `closure` are those that can be reached in one or
more steps (`mem_closure_iff`).

A step is read off the outline (`Outline.DependsOn`), and `mem_of_iff` says that the
lists of dependencies have the same steps.
-/
namespace TaskOutline

/-- A node declares a dependency on a node. -/
def Outline.DependsOn (t : Outline) (a b : TaskId) : Prop :=
  ∃ n ∈ t.nodes, ∃ m ∈ t.nodes, n.id = a ∧ m.id = b ∧ b ∈ n.depends

namespace Dependencies

open Relation

variable {g : Dependencies} {seen todo : List TaskId} {x : TaskId}

/-! ## Following dependencies -/

theorem subset_explore (g : Dependencies) (seen todo : List TaskId) :
    seen ⊆ g.explore seen todo ∧ todo ⊆ g.explore seen todo := by
  fun_induction g.explore seen todo with
  | case1 seen => exact ⟨List.Subset.refl _, List.nil_subset _⟩
  | case2 seen id rest hseen ih =>
    obtain ⟨hkept, hrest⟩ := ih
    exact ⟨hkept, List.cons_subset.mpr ⟨hkept hseen, hrest⟩⟩
  | case3 seen id rest hnew ih =>
    obtain ⟨hkept, hmore⟩ := ih
    obtain ⟨hid, hseen⟩ := List.cons_subset.mp hkept
    obtain ⟨-, hrest⟩ := List.append_subset.mp hmore
    exact ⟨hseen, List.cons_subset.mpr ⟨hid, hrest⟩⟩

/-- Nothing is reached that was not seen before and does not follow from the list. -/
theorem mem_explore (h : x ∈ g.explore seen todo) :
    x ∈ seen ∨ ∃ a ∈ todo, ReflTransGen (fun a b => b ∈ g.of a) a x := by
  fun_induction g.explore seen todo with
  | case1 seen => exact .inl h
  | case2 seen id rest hseen ih =>
    obtain hx | ⟨a, ha, hax⟩ := ih h
    · exact .inl hx
    · exact .inr ⟨a, List.mem_cons_of_mem id ha, hax⟩
  | case3 seen id rest hnew ih =>
    obtain hx | ⟨a, ha, hax⟩ := ih h
    · rcases List.mem_cons.mp hx with rfl | hx
      · exact .inr ⟨x, List.mem_cons_self, .refl⟩
      · exact .inl hx
    · rcases List.mem_append.mp ha with hof | hrest
      · -- from a dependency of the task that was taken up
        exact .inr ⟨id, List.mem_cons_self, .head hof hax⟩
      · exact .inr ⟨a, List.mem_cons_of_mem id hrest, hax⟩

/-- With a task that is newly seen, all that it depends on is seen. -/
theorem explore_closed (h : x ∈ g.explore seen todo) (hx : x ∉ seen) :
    g.of x ⊆ g.explore seen todo := by
  fun_induction g.explore seen todo with
  | case1 seen => exact absurd h hx
  | case2 seen id rest hseen ih => exact ih h hx
  | case3 seen id rest hnew ih =>
    by_cases heq : x = id
    · -- its dependencies were put on the list
      subst heq
      obtain ⟨-, hmore⟩ := subset_explore g (x :: seen) (g.of x ++ rest)
      exact (List.append_subset.mp hmore).1
    · exact ih h fun hmem => (List.mem_cons.mp hmem).elim heq hx

/-- **The closure of a task is what it depends on in one or more steps.** -/
theorem mem_closure_iff {id : TaskId} :
    x ∈ g.closure id ↔ TransGen (fun a b => b ∈ g.of a) id x := by
  constructor
  · intro h
    obtain hx | ⟨a, ha, hax⟩ := mem_explore h
    · cases hx
    · exact TransGen.head' ha hax
  · intro h
    obtain ⟨-, hfirst⟩ := subset_explore g [] (g.of id)
    induction h with
    | single hof => exact hfirst hof
    | tail _ hof ih => exact explore_closed ih List.not_mem_nil hof

/-! ## The dependencies of an outline -/

/-- **A task has in its list what it depends on directly.** -/
theorem mem_of_iff {t : Outline} {a b : TaskId} :
    b ∈ (ofOutline t).value.of a ↔ t.DependsOn a b := by
  simp only [mem_of_iff_edge, index?_ofOutline, index?_bare_iff, mem_edges_ofOutline,
    ids_ofOutline]
  constructor
  · rintro ⟨i, j, ha, ⟨n, hn, d, hd, hi, hj⟩, hb⟩
    obtain rfl : n.id = a := Option.some.inj (hj.symm.trans ha)
    obtain rfl : d = b := Option.some.inj (hi.symm.trans hb)
    obtain ⟨m, hm, hid⟩ := List.mem_map.mp (List.mem_of_getElem? hb)
    exact ⟨n, hn, m, hm, rfl, hid, hd⟩
  · rintro ⟨n, hn, m, hm, rfl, rfl, hd⟩
    obtain ⟨j, hj⟩ := List.getElem?_of_mem (List.mem_map_of_mem hn : n.id ∈ t.ids)
    obtain ⟨i, hi⟩ := List.getElem?_of_mem (List.mem_map_of_mem hm : m.id ∈ t.ids)
    exact ⟨i, j, hj, ⟨n, hn, m.id, hd, hi, hj⟩, hi⟩

theorem mem_closure_ofOutline_iff {t : Outline} {a b : TaskId} :
    b ∈ (ofOutline t).value.closure a ↔ TransGen t.DependsOn a b := by
  rw [mem_closure_iff]
  have hsteps : (fun a b => b ∈ (ofOutline t).value.of a) = t.DependsOn := by
    funext a b
    exact propext mem_of_iff
  rw [hsteps]

end Dependencies

/-- What is reached is a node. -/
theorem Outline.DependsOn.mem_ids {t : Outline} {a b : TaskId}
    (h : Relation.TransGen t.DependsOn a b) : b ∈ t.ids := by
  cases h with
  | single h =>
    obtain ⟨-, -, m, hm, -, rfl, -⟩ := h
    exact List.mem_map_of_mem hm
  | tail _ h =>
    obtain ⟨-, -, m, hm, -, rfl, -⟩ := h
    exact List.mem_map_of_mem hm

end TaskOutline
