import TaskOutline.Identifier.Basic

/-! # Ascending lists

Lists that are kept in the order of an identifier that each element carries,
with at most one element for each identifier.
-/
namespace TaskOutline

variable {α : Type} (key : α → TaskId)

/-- A list is ascending when its elements come in the order of their identifiers,
none twice. -/
def Ascending (xs : List α) : Prop := xs.Pairwise fun a b => key a < key b

namespace Ascending

/-- Puts an element into an ascending list, in place of the one with its
identifier if there is one. -/
def place (x : α) : List α → List α
  | [] => [x]
  | y :: ys =>
    if key x < key y then x :: y :: ys
    else if key x = key y then x :: ys
    else y :: place x ys

variable {key}

theorem nil : Ascending key [] := List.Pairwise.nil

theorem eq_or_mem_of_mem_place {x y : α} {xs : List α} (h : y ∈ place key x xs) :
    y = x ∨ y ∈ xs := by
  induction xs with
  | nil => simpa [place] using h
  | cons z zs ih =>
    unfold place at h
    split at h
    · simpa using h
    · split at h
      · rcases List.mem_cons.mp h with h | h
        · exact .inl h
        · exact .inr (List.mem_cons_of_mem z h)
      · rcases List.mem_cons.mp h with h | h
        · exact .inr (h ▸ List.mem_cons_self)
        · exact (ih h).imp_right (List.mem_cons_of_mem z)

theorem ascending_place {x : α} {xs : List α} (h : Ascending key xs) :
    Ascending key (place key x xs) := by
  unfold Ascending at *
  induction xs with
  | nil => simp [place]
  | cons z zs ih =>
    rw [List.pairwise_cons] at h
    unfold place
    split
    · rename_i hlt
      refine List.pairwise_cons.mpr ⟨fun y hy => ?_, List.pairwise_cons.mpr h⟩
      rcases List.mem_cons.mp hy with rfl | hy
      · exact hlt
      · exact TaskId.lt_trans hlt (h.1 y hy)
    · split
      · rename_i heq
        exact List.pairwise_cons.mpr ⟨fun y hy => heq ▸ h.1 y hy, h.2⟩
      · rename_i hlt hne
        refine List.pairwise_cons.mpr ⟨fun y hy => ?_, ih h.2⟩
        rcases eq_or_mem_of_mem_place hy with rfl | hy
        · exact TaskId.lt_of_not_lt_of_ne hlt hne
        · exact h.1 y hy

/-- Whether a list is ascending depends on its identifiers alone. -/
theorem congr {β : Type} {key' : β → TaskId} {xs : List α} {ys : List β}
    (h : xs.map key = ys.map key') (hx : Ascending key xs) : Ascending key' ys := by
  have hx' : (xs.map key).Pairwise (· < ·) := List.pairwise_map.mpr hx
  exact List.pairwise_map.mp (h ▸ hx')

end Ascending

end TaskOutline
