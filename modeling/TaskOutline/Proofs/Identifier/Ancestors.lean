import TaskOutline.Identifier.Basic

/-! # Ancestors are beginnings

The identifiers above an identifier are those whose segments it begins with, itself
left out.  They are listed from the nearest up, so that in a set of identifiers
that has with each one all those above it, the ancestors that are missing stand in
front: a search that stops at the first one present misses none.
-/
namespace TaskOutline.TaskId

theorem segments_eq_concat (id : TaskId) :
    id.segments = id.segments.dropLast ++ [id.segments.getLast id.nonempty] :=
  (List.dropLast_concat_getLast id.nonempty).symm

theorem ancestors_of_top {id : TaskId} (h : id.parent? = none) : id.ancestors = [] := by
  rw [ancestors]
  split
  · rfl
  · rename_i p hp
    rw [h] at hp
    cases hp

theorem ancestors_of_parent {id p : TaskId} (h : id.parent? = some p) :
    id.ancestors = p :: p.ancestors := by
  rw [ancestors]
  split
  · rename_i hp
    rw [h] at hp
    cases hp
  · rename_i q hq
    rw [h] at hq
    cases hq
    rfl

theorem dropLast_of_top {id : TaskId} (h : id.parent? = none) : id.segments.dropLast = [] := by
  unfold parent? at h
  split at h
  · assumption
  · cases h

/-- A proper beginning of an identifier begins what is left without its last segment. -/
theorem prefix_dropLast_iff {a id : TaskId} :
    a.segments <+: id.segments.dropLast ↔ a.segments <+: id.segments ∧ a ≠ id := by
  have hlast : a.segments <+: id.segments ↔ a.segments = id.segments ∨
      a.segments <+: id.segments.dropLast := by
    have h : a.segments <+: id.segments.dropLast ++ [id.segments.getLast id.nonempty] ↔
        a.segments = id.segments.dropLast ++ [id.segments.getLast id.nonempty] ∨
          a.segments <+: id.segments.dropLast := List.prefix_concat_iff
    rwa [← segments_eq_concat id] at h
  constructor
  · intro h
    refine ⟨hlast.mpr (.inr h), ?_⟩
    rintro rfl
    have hlen := h.length_le
    have hpos := List.length_pos_iff.mpr a.nonempty
    rw [List.length_dropLast] at hlen
    omega
  · rintro ⟨h, hne⟩
    exact (hlast.mp h).resolve_left fun heq => hne (ext heq)

/-- **The ancestors of an identifier are its proper beginnings.** -/
theorem mem_ancestors_iff {a id : TaskId} :
    a ∈ id.ancestors ↔ a.segments <+: id.segments ∧ a ≠ id := by
  rw [← prefix_dropLast_iff]
  cases h : id.parent? with
  | none =>
    rw [ancestors_of_top h, dropLast_of_top h]
    simp [a.nonempty]
  | some p =>
    rw [ancestors_of_parent h, ← segments_of_parent? h, List.mem_cons]
    -- the parent's own ancestors, one level up
    have ih : a ∈ p.ancestors ↔ a.segments <+: p.segments ∧ a ≠ p := mem_ancestors_iff
    rw [ih]
    constructor
    · rintro (rfl | ⟨hp, -⟩)
      · exact List.prefix_rfl
      · exact hp
    · intro hp
      by_cases hap : a = p
      · exact .inl hap
      · exact .inr ⟨hp, hap⟩
termination_by id.segments.length
decreasing_by exact length_parent?_lt h

/-- An identifier begins with itself and with those above it. -/
theorem eq_or_mem_ancestors_iff {a id : TaskId} :
    a = id ∨ a ∈ id.ancestors ↔ a.segments <+: id.segments := by
  rw [mem_ancestors_iff]
  constructor
  · rintro (rfl | ⟨hbegins, -⟩)
    · exact List.prefix_rfl
    · exact hbegins
  · intro hbegins
    by_cases heq : a = id
    · exact .inl heq
    · exact .inr ⟨hbegins, heq⟩

/-- The first task of an outline. -/
def first : TaskId := ⟨[1], by decide, by decide⟩

/-- The first task under it. -/
def firstUnderFirst : TaskId := ⟨[1, 1], by decide, by decide⟩

/-- The task beside it. -/
def second : TaskId := ⟨[2], by decide, by decide⟩

example : first ∈ firstUnderFirst.ancestors ∧ second ∉ firstUnderFirst.ancestors := by
  rw [mem_ancestors_iff, mem_ancestors_iff]
  decide

/-- Where presence passes from an identifier to those above it, the missing
ancestors are those before the first one present. -/
theorem mem_takeWhile_ancestors {present : TaskId → Bool}
    (hup : ∀ b, present b = true → ∀ a ∈ b.ancestors, present a = true) {id x : TaskId} :
    x ∈ id.ancestors.takeWhile (fun a => !present a) ↔ x ∈ id.ancestors ∧ present x = false := by
  cases h : id.parent? with
  | none => simp [ancestors_of_top h]
  | some p =>
    rw [ancestors_of_parent h, List.takeWhile_cons]
    by_cases hp : present p = true
    · -- the search ends at the parent, and all above it is present
      have hnone : ∀ y ∈ p :: p.ancestors, present y = true := by
        intro y hy
        rcases List.mem_cons.mp hy with rfl | hy
        · exact hp
        · exact hup p hp y hy
      simp only [hp, Bool.not_true, Bool.false_eq_true, if_false, List.not_mem_nil, false_iff,
        not_and, Bool.not_eq_false]
      exact hnone x
    · -- the parent is missing, and the search goes on above it
      have ih : x ∈ p.ancestors.takeWhile (fun a => !present a) ↔
          x ∈ p.ancestors ∧ present x = false := mem_takeWhile_ancestors hup
      simp only [hp, Bool.not_false, if_true, List.mem_cons, ih]
      constructor
      · rintro (rfl | ⟨hx, hf⟩)
        · exact ⟨.inl rfl, by simpa using hp⟩
        · exact ⟨.inr hx, hf⟩
      · rintro ⟨rfl | hx, hf⟩
        · exact .inl rfl
        · exact .inr ⟨hx, hf⟩
termination_by id.segments.length
decreasing_by exact length_parent?_lt h

end TaskOutline.TaskId
