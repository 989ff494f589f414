import Mathlib.Data.List.Infix
import TaskOutline.Proofs.Identifier.Ancestors
import TaskOutline.Proofs.Identifier.Order

/-! # The order of identifiers and the hierarchy

One identifier comes before another in two ways: it lies above it, or the two part at some
level and it has the smaller number there (`TaskId.lt_iff`).  Identifiers that part do so
however far down one goes from either (`TaskId.Parts.under`), so that nothing can stand
between an identifier and what lies under it that does not lie under it too
(`TaskId.prefix_of_between`).  That is what makes the order a walk of the hierarchy: all
that lies under an identifier stands together, right behind it, and what lies under one
sibling is over before the next begins (`TaskId.order_walks_hierarchy`).
-/
namespace TaskOutline

/-- Of two lists in order the first begins the second, or they part. -/
theorem prefix_or_part_of_lt {xs ys : List Nat} (h : xs < ys) :
    xs <+: ys ∨ ∃ above m n, m < n ∧ above ++ [m] <+: xs ∧ above ++ [n] <+: ys := by
  induction h with
  | nil => exact .inl List.nil_prefix
  | rel hlt => exact .inr ⟨[], _, _, hlt, ⟨_, rfl⟩, ⟨_, rfl⟩⟩
  | @cons x xs ys _ ih =>
    rcases ih with hbegins | ⟨above, m, n, hlt, hxs, hys⟩
    · exact .inl (List.cons_prefix_cons.mpr ⟨rfl, hbegins⟩)
    · exact .inr ⟨x :: above, m, n, hlt, List.cons_prefix_cons.mpr ⟨rfl, hxs⟩,
        List.cons_prefix_cons.mpr ⟨rfl, hys⟩⟩

namespace TaskId

variable {a b c x y : TaskId}

/-- Two identifiers part: they agree down to some level, and at the next the first has the
smaller number. -/
def Parts (a b : TaskId) : Prop :=
  ∃ above m n, m < n ∧ above ++ [m] <+: a.segments ∧ above ++ [n] <+: b.segments

/-- What lies under two identifiers that part does so too. -/
theorem Parts.under (h : a.Parts b) (hax : a.segments <+: x.segments)
    (hby : b.segments <+: y.segments) : x.Parts y := by
  obtain ⟨above, m, n, hlt, ha, hb⟩ := h
  exact ⟨above, m, n, hlt, ha.trans hax, hb.trans hby⟩

theorem Parts.lt (h : a.Parts b) : a < b := by
  obtain ⟨above, m, n, hlt, ⟨us, ha⟩, ⟨vs, hb⟩⟩ := h
  have hparted : above ++ [m] < above ++ [n] := List.append_left_lt (.rel hlt)
  rw [lt_def, ← ha, ← hb]
  exact append_lt_append hparted (by simp) us vs

theorem lt_of_mem_ancestors (h : a ∈ b.ancestors) : a < b := by
  obtain ⟨hbegins, hne⟩ := mem_ancestors_iff.mp h
  exact lt_of_prefix hbegins hne

/-- **An identifier comes before those under it and those that it parts from in front.** -/
theorem lt_iff : a < b ↔ a ∈ b.ancestors ∨ a.Parts b := by
  constructor
  · intro h
    rcases prefix_or_part_of_lt h with hbegins | hparts
    · exact .inl (mem_ancestors_iff.mpr ⟨hbegins, ne_of_lt h⟩)
    · exact .inr hparts
  · rintro (habove | hparts)
    · exact lt_of_mem_ancestors habove
    · exact hparts.lt

/-- Where two identifiers part it is their numbers that count, and not the digits. -/
example : (⟨[1, 2], by decide, by decide⟩ : TaskId) < ⟨[1, 10], by decide, by decide⟩ := by decide

/-- What stands between an identifier and one under it lies under it as well. -/
theorem prefix_of_between (hab : ¬ b < a) (hbc : ¬ c < b) (hac : a.segments <+: c.segments) :
    a.segments <+: b.segments := by
  by_cases heq : a = b
  · exact heq ▸ List.prefix_rfl
  · rcases lt_iff.mp (lt_of_not_lt_of_ne hab (Ne.symm heq)) with habove | hparts
    · exact (mem_ancestors_iff.mp habove).1
    · -- otherwise all under `a` would come before `b`
      exact absurd (hparts.under hac List.prefix_rfl).lt hbc

/-- Siblings are of one level. -/
theorem length_eq_of_siblings (h : a.parent? = b.parent?) :
    a.segments.length = b.segments.length := by
  have hdrop : a.segments.dropLast = b.segments.dropLast := by
    cases hb : b.parent? with
    | none => rw [dropLast_of_top hb, dropLast_of_top (h.trans hb)]
    | some p => rw [← segments_of_parent? hb, ← segments_of_parent? (h.trans hb)]
  rw [segments_eq_concat a, segments_eq_concat b, hdrop]
  simp only [List.length_append, List.length_singleton]

/-! ## The ancestors in order -/

/-- The proper beginnings of a list that goes on by one are the beginnings of the list. -/
theorem filter_inits_concat (ns : List Nat) (n : Nat) :
    ((ns ++ [n]).inits.filter fun p => p ≠ [] ∧ p ≠ ns ++ [n]) = ns.inits.filter (· ≠ []) := by
  have hinits : (ns ++ [n]).inits = ns.inits ++ [ns ++ [n]] := by
    rw [List.inits_append]
    rfl
  have hlast : ([ns ++ [n]].filter fun p => p ≠ [] ∧ p ≠ ns ++ [n]) = [] := by simp
  rw [hinits, List.filter_append, hlast, List.append_nil]
  refine List.filter_congr fun p hp => ?_
  have hne : p ≠ ns ++ [n] := by
    rintro rfl
    have hlength := ((List.mem_inits _ _).mp hp).length_le
    rw [List.length_append, List.length_singleton] at hlength
    omega
  simp [hne]

/-- The last of the beginnings of a list is the list. -/
theorem filter_inits_of_ne_nil {ns : List Nat} (h : ns ≠ []) :
    ns.inits.filter (· ≠ []) = (ns.inits.filter fun p => p ≠ [] ∧ p ≠ ns) ++ [ns] := by
  have hconcat := List.dropLast_concat_getLast h
  generalize ns.getLast h = n at hconcat
  generalize ns.dropLast = before at hconcat
  subst hconcat
  rw [filter_inits_concat, List.inits_append, List.filter_append]
  simp

/-- **The ancestors of an identifier are its proper beginnings, the longest first.** -/
theorem map_segments_ancestors (id : TaskId) :
    id.ancestors.map segments =
      (id.segments.inits.filter fun p => p ≠ [] ∧ p ≠ id.segments).reverse := by
  rw [segments_eq_concat id, filter_inits_concat]
  cases h : id.parent? with
  | none =>
    rw [ancestors_of_top h, dropLast_of_top h]
    rfl
  | some p =>
    -- what begins the parent is the parent itself and, by induction, its own ancestors
    have ih : p.ancestors.map segments =
      (p.segments.inits.filter fun q => q ≠ [] ∧ q ≠ p.segments).reverse := map_segments_ancestors p
    rw [ancestors_of_parent h, ← segments_of_parent? h, filter_inits_of_ne_nil p.nonempty,
      List.reverse_concat, List.map_cons, ih]
termination_by id.segments.length
decreasing_by exact length_parent?_lt h

/-! ## The order -/

/-- Comparing two identifiers tells which of the three it is. -/
theorem compare_iff (a b : TaskId) :
    (compare a b = .lt ↔ a < b) ∧ (compare a b = .eq ↔ a = b) ∧ (compare a b = .gt ↔ b < a) := by
  have hcompare : compare a b = if a < b then .lt else if a = b then .eq else .gt := rfl
  have hthree : a < b ∨ a = b ∨ b < a := trichotomous a b
  rw [hcompare]
  rcases hthree with hlt | rfl | hgt
  · simp [hlt, ne_of_lt hlt, lt_asymm hlt]
  · simp [lt_irrefl]
  · simp [hgt, lt_asymm hgt, (ne_of_lt hgt).symm]

/-- **The order of identifiers walks the hierarchy.**  It is strict, and compares any two.
The ancestors of an identifier are its proper beginnings, the longest first, and they come
before it.  What stands between an identifier and one that it is or lies above, it is or lies
above as well; and of two siblings, all that lies under the first comes before the second and
before all that lies under the second. -/
theorem order_walks_hierarchy :
    (∀ a b : TaskId, (compare a b = .lt ↔ a < b) ∧ (compare a b = .eq ↔ a = b) ∧
      (compare a b = .gt ↔ b < a)) ∧
    ((∀ a : TaskId, ¬ a < a) ∧ (∀ a b c : TaskId, a < b → b < c → a < c) ∧
      ∀ a b : TaskId, a < b ∨ a = b ∨ b < a) ∧
    (∀ a b : TaskId, a < b ↔ a ∈ b.ancestors ∨ a.Parts b) ∧
    (∀ id : TaskId, id.ancestors.map segments =
      (id.segments.inits.filter fun p => p ≠ [] ∧ p ≠ id.segments).reverse) ∧
    (∀ id : TaskId, ∀ a ∈ id.ancestors, a < id) ∧
    (∀ a b c : TaskId, ¬ b < a → ¬ c < b → a = c ∨ a ∈ c.ancestors → a = b ∨ a ∈ b.ancestors) ∧
    ∀ a b : TaskId, a.parent? = b.parent? → a < b → ∀ x, a ∈ x.ancestors →
      x < b ∧ ∀ y, b ∈ y.ancestors → x < y := by
  refine ⟨compare_iff, ⟨lt_irrefl, fun _ _ _ => lt_trans, trichotomous⟩, fun _ _ => lt_iff,
    map_segments_ancestors, fun _ _ => lt_of_mem_ancestors, ?_, ?_⟩
  · intro a b c hab hbc hac
    exact eq_or_mem_ancestors_iff.mpr
      (prefix_of_between hab hbc (eq_or_mem_ancestors_iff.mp hac))
  · intro a b hparent hlt x hx
    have hbefore : ∀ y : TaskId, b.segments <+: y.segments → x < y := fun y hby =>
      lt_of_prefix_of_prefix hlt (length_eq_of_siblings hparent) (mem_ancestors_iff.mp hx).1 hby
    exact ⟨hbefore b List.prefix_rfl, fun y hy => hbefore y (mem_ancestors_iff.mp hy).1⟩

/-- What lies under the first task comes before the task beside it. -/
theorem order_walks_hierarchy_first :
    first ∈ firstUnderFirst.ancestors ∧ first.parent? = second.parent? ∧ first < second ∧
      firstUnderFirst < second := by
  have habove : first ∈ firstUnderFirst.ancestors := mem_ancestors_iff.mpr (by decide)
  have hlt : first < second := by decide
  obtain ⟨-, -, -, -, -, -, hsiblings⟩ := order_walks_hierarchy
  exact ⟨habove, rfl, hlt, (hsiblings first second rfl hlt firstUnderFirst habove).1⟩

end TaskId

end TaskOutline
