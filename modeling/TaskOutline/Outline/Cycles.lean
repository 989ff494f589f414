import TaskOutline.Outline.Dependencies

/-! # Dependency cycles

Tasks that depend on one another, by way of others or directly, form a cycle; so
does a task that depends on itself. Every task is on at most one cycle, which is
given as the list of its tasks in order. A cycle is worth a warning and no more.
-/
namespace TaskOutline.Dependencies

/-- How many nodes are not among those seen. -/
def unseen (g : Dependencies) (seen : List TaskId) : Nat :=
  (g.ids.filter fun id => !seen.contains id).length

/-- Only nodes have an index. -/
theorem getElem?_ids_of_index? {g : Dependencies} {id : TaskId} {i : Nat}
    (h : g.index? id = some i) : g.ids[i]? = some id := by
  obtain ⟨entry, he, rfl⟩ := Option.map_eq_some_iff.mp h
  obtain rfl : entry.1 = id := by simpa using List.find?_some he
  exact g.indexed entry (List.mem_of_find?_eq_some he)

theorem of_eq_nil {g : Dependencies} {id : TaskId} (h : id ∉ g.ids) : g.of id = [] := by
  unfold of
  cases hi : g.index? id with
  | none => rfl
  | some i => exact absurd (List.mem_of_getElem? (getElem?_ids_of_index? hi)) h

theorem unseen_lt {g : Dependencies} {id : TaskId} {seen : List TaskId} (hg : id ∈ g.ids)
    (hs : id ∉ seen) : g.unseen (id :: seen) < g.unseen seen := by
  unfold unseen
  have hsplit : (g.ids.filter fun x => !(id :: seen).contains x) =
      (g.ids.filter fun x => !seen.contains x).filter fun x => x ≠ id := by
    rw [List.filter_filter]
    congr 1
    funext x
    by_cases hx : x = id <;> simp [hx]
  rw [hsplit]
  refine List.length_filter_lt_length_iff_exists.mpr ⟨id, ?_, by simp⟩
  simp [hg, hs]

theorem unseen_eq {g : Dependencies} {id : TaskId} (seen : List TaskId) (hg : id ∉ g.ids) :
    g.unseen (id :: seen) = g.unseen seen := by
  unfold unseen
  congr 1
  refine List.filter_congr fun x hx => ?_
  have : x ≠ id := fun h => hg (h ▸ hx)
  simp [this]

/-- Follows dependencies from the tasks still to be seen, given those seen: all
tasks that are reached. -/
def explore (g : Dependencies) (seen : List TaskId) : List TaskId → List TaskId
  | [] => seen
  | id :: rest =>
    if id ∈ seen then explore g seen rest
    else explore g (id :: seen) (g.of id ++ rest)
termination_by todo => (g.unseen seen, todo.length)
decreasing_by
  · exact Prod.Lex.right _ (Nat.lt_succ_self _)
  · by_cases hg : id ∈ g.ids
    · exact Prod.Lex.left _ _ (unseen_lt hg ‹_›)
    · rw [of_eq_nil hg, unseen_eq seen hg]
      exact Prod.Lex.right _ (Nat.lt_succ_self _)

/-- The tasks that a task depends on, directly or by way of others. -/
def closure (g : Dependencies) (id : TaskId) : List TaskId :=
  g.explore [] (g.of id)

/-- The cycles: each in order, and the cycles in the order of their first tasks. -/
def cycles (g : Dependencies) : List (List TaskId) :=
  let table := g.ids.map fun id => (id, g.closure id)
  table.filterMap fun (id, below) =>
    let cycle := (table.filter fun (other, back) => other ∈ below ∧ id ∈ back).map Prod.fst
    if cycle.head? = some id then some cycle else none

/-- The warning about a cycle, at the place of its first task. -/
def cycleWarning (t : Outline) (cycle : List TaskId) : Diagnostic :=
  let place := (cycle.head?.bind t.find?).bind Node.location?
  ⟨.warning, place, .dependencyCycle cycle⟩

/-- The dependencies of an outline, with a report on all that is wrong with them. -/
def check (t : Outline) : Logged Dependencies := do
  let g ← ofOutline t
  ⟨g, g.cycles.map (cycleWarning t)⟩

end TaskOutline.Dependencies
