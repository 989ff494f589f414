import TaskOutline.Identifier.Basic

/-! # The order of identifiers

An identifier comes before all that lies under it (`TaskId.lt_of_prefix`), and where two
of one level are in order, so is all that lies under them (`TaskId.lt_of_prefix_of_prefix`).

The order is strict and compares any two, and so does the order of lists of identifiers
that goes by the first difference.  In such an order a list has one sorted arrangement:
whatever way its elements come, sorting puts them there (`mergeSort_eq_of_perm`).  Sorting
by a key does not touch the arrangement of what has the same key (`filter_mergeSort_key`).
Once it is sorted, what a list repeats stands together, and can be dropped with a look at
the next element alone (`pairwise_eraseReps`).
-/
namespace TaskOutline

/-- Lists of one length stay in order when they are continued. -/
theorem append_lt_append {α : Type} [LT α] {xs ys : List α} (hlt : xs < ys)
    (hlength : xs.length = ys.length) (us vs : List α) : xs ++ us < ys ++ vs := by
  induction hlt with
  | nil => simp at hlength
  | rel hab => exact List.Lex.rel hab
  | cons _ ih => exact List.Lex.cons (ih (Nat.succ.inj hlength))

namespace TaskId

theorem lt_asymm {a b : TaskId} (hab : a < b) : ¬ b < a :=
  fun hba => lt_irrefl a (lt_trans hab hba)

theorem eq_of_not_lt {a b : TaskId} (hab : ¬ a < b) (hba : ¬ b < a) : a = b :=
  Classical.byContradiction fun hne => hba (lt_of_not_lt_of_ne hab hne)

instance : Std.Asymm (· < · : TaskId → TaskId → Prop) := ⟨fun _ _ => lt_asymm⟩

instance : Std.Trichotomous (· < · : TaskId → TaskId → Prop) := ⟨fun _ _ => eq_of_not_lt⟩

instance : Trans (· < · : TaskId → TaskId → Prop) (· < ·) (· < ·) := ⟨lt_trans⟩

/-- An identifier comes before those under it. -/
theorem lt_of_prefix {a b : TaskId} (h : a.segments <+: b.segments) (hne : a ≠ b) : a < b := by
  rw [lt_def]
  refine Classical.byContradiction fun hnot => hne (ext ?_)
  rw [List.not_lt] at hnot
  exact List.le_antisymm h.le hnot

theorem lt_of_parent? {id p : TaskId} (h : id.parent? = some p) : p < id := by
  refine lt_of_prefix (segments_of_parent? h ▸ List.dropLast_prefix _) ?_
  rintro rfl
  exact Nat.lt_irrefl _ (length_parent?_lt h)

/-- All under one identifier comes before all under a later one of the same level. -/
theorem lt_of_prefix_of_prefix {a b x y : TaskId} (hlt : a < b)
    (hlength : a.segments.length = b.segments.length) (hax : a.segments <+: x.segments)
    (hby : b.segments <+: y.segments) : x < y := by
  obtain ⟨us, hx⟩ := hax
  obtain ⟨vs, hy⟩ := hby
  rw [lt_def, ← hx, ← hy]
  exact append_lt_append hlt hlength us vs

end TaskId

/-! ## Sorting -/

section Sorting

variable {α κ : Type} [LT κ]

theorem not_lt_trans [Std.Trichotomous (· < · : κ → κ → Prop)]
    [Trans (· < · : κ → κ → Prop) (· < ·) (· < ·)] {a b c : κ} (hab : ¬ b < a) (hbc : ¬ c < b) :
    ¬ c < a := by
  intro hca
  by_cases hlt : a < b
  · exact hbc (Trans.trans hca hlt)
  · exact hbc (Std.Trichotomous.trichotomous a b hlt hab ▸ hca)

variable [DecidableLT κ] [Std.Asymm (· < · : κ → κ → Prop)]

theorem not_lt_total (a b : κ) : (!decide (b < a) || !decide (a < b)) = true := by
  by_cases hba : b < a
  · simpa using Or.inr (Std.Asymm.asymm b a hba)
  · simp [hba]

variable [Std.Trichotomous (· < · : κ → κ → Prop)] [Trans (· < · : κ → κ → Prop) (· < ·) (· < ·)]

/-- A list is sorted by a key when it has been. -/
theorem pairwise_mergeSort_key (key : α → κ) (xs : List α) :
    (xs.mergeSort fun a b => !decide (key b < key a)).Pairwise fun a b => ¬ key b < key a := by
  have htrans : ∀ a b c : α, ¬ key b < key a → ¬ key c < key b → ¬ key c < key a :=
    fun _ _ _ => not_lt_trans
  have hle := List.pairwise_mergeSort (by simpa using htrans)
    (fun a b : α => not_lt_total (key a) (key b)) xs
  simpa using hle

/-- **Sorting by a key leaves the elements of one key as they are arranged.** -/
theorem filter_mergeSort_key [DecidableEq κ] (key : α → κ) (xs : List α) (k : κ) :
    (xs.mergeSort fun a b => !decide (key b < key a)).filter (fun x => key x = k) =
      xs.filter fun x => key x = k := by
  have htrans : ∀ a b c : α, ¬ key b < key a → ¬ key c < key b → ¬ key c < key a :=
    fun _ _ _ => not_lt_trans
  have hsame : (xs.filter fun x => key x = k).Pairwise fun a b => !decide (key b < key a) := by
    refine List.pairwise_of_forall_mem_list fun a ha b hb => ?_
    have hak : key a = k := by simpa using (List.mem_filter.mp ha).2
    have hbk : key b = k := by simpa using (List.mem_filter.mp hb).2
    simpa [hak, hbk] using Std.Irrefl.irrefl k
  have hkept := (List.sublist_mergeSort (by simpa using htrans)
    (fun a b : α => not_lt_total (key a) (key b)) hsame List.filter_sublist).filter
    fun x => decide (key x = k)
  simp only [List.filter_filter, Bool.and_self] at hkept
  refine (hkept.eq_of_length ?_).symm
  exact (((List.mergeSort_perm _ _).filter _).length_eq).symm

end Sorting

/-! ## Repetitions -/

section Repetitions

variable {α : Type} [DecidableEq α] {a b : α} {xs : List α}

theorem eraseReps_loop (a : α) (xs seen : List α) :
    List.eraseRepsBy.loop (· == ·) a xs seen =
      seen.reverse ++ List.eraseRepsBy.loop (· == ·) a xs [] := by
  induction xs generalizing a seen with
  | nil => simp [List.eraseRepsBy.loop]
  | cons b xs ih =>
    simp only [List.eraseRepsBy.loop]
    split
    · exact ih a seen
    · rw [ih b (a :: seen), ih b [a], List.reverse_cons, List.append_assoc, List.reverse_singleton]

/-- Of an element and the next one only one is kept if they are the same. -/
theorem eraseReps_cons_cons (a b : α) (xs : List α) :
    (a :: b :: xs).eraseReps =
      if a = b then (b :: xs).eraseReps else a :: (b :: xs).eraseReps := by
  show List.eraseRepsBy.loop (· == ·) a (b :: xs) [] =
    if a = b then List.eraseRepsBy.loop (· == ·) b xs []
    else a :: List.eraseRepsBy.loop (· == ·) b xs []
  by_cases hab : a = b
  · subst hab
    simp [List.eraseRepsBy.loop]
  · have hne : (a == b) = false := by simpa using hab
    rw [if_neg hab]
    simp only [List.eraseRepsBy.loop, hne]
    exact eraseReps_loop b xs [a]

theorem mem_eraseReps : b ∈ xs.eraseReps ↔ b ∈ xs := by
  induction xs with
  | nil => rfl
  | cons a xs ih =>
    cases xs with
    | nil => rfl
    | cons c xs =>
      rw [eraseReps_cons_cons]
      split
      · rename_i hac
        simp [ih, hac]
      · rw [List.mem_cons, ih, List.mem_cons (a := b) (l := c :: xs)]

/-- Without its repetitions a sorted list is in strict order. -/
theorem pairwise_eraseReps [LT α] [Std.Trichotomous (· < · : α → α → Prop)]
    [Trans (· < · : α → α → Prop) (· < ·) (· < ·)] (h : xs.Pairwise fun a b => ¬ b < a) :
    xs.eraseReps.Pairwise (· < ·) := by
  induction xs with
  | nil => exact List.Pairwise.nil
  | cons a xs ih =>
    cases xs with
    | nil => exact List.pairwise_singleton _ _
    | cons c xs =>
      obtain ⟨ha, hrest⟩ := List.pairwise_cons.mp h
      rw [eraseReps_cons_cons]
      split
      · exact ih hrest
      · rename_i hac
        have hlt : a < c := Classical.byContradiction fun hnot =>
          hac (Std.Trichotomous.trichotomous a c hnot (ha c List.mem_cons_self))
        refine List.pairwise_cons.mpr ⟨fun b hb => ?_, ih hrest⟩
        -- what comes later is the next element, or comes after it
        rcases List.mem_cons.mp (mem_eraseReps.mp hb) with rfl | hb
        · exact hlt
        have hbc : ¬ b < c := (List.pairwise_cons.mp hrest).1 b hb
        by_cases hcb : c < b
        · exact Trans.trans hlt hcb
        · exact Std.Trichotomous.trichotomous c b hcb hbc ▸ hlt

end Repetitions

/-- **Sorting has one outcome.**  A list in strict order is what comes of sorting its
elements, in whatever way they are arranged. -/
theorem mergeSort_eq_of_perm {α : Type} [LT α] [DecidableLT α]
    [Std.Asymm (· < · : α → α → Prop)] [Std.Trichotomous (· < · : α → α → Prop)]
    [Trans (· < · : α → α → Prop) (· < ·) (· < ·)]
    {xs ys : List α} (h : xs.Perm ys) (hys : ys.Pairwise (· < ·)) :
    xs.mergeSort (fun a b => !decide (b < a)) = ys := by
  refine List.Perm.eq_of_pairwise ?_ (pairwise_mergeSort_key (fun a => a) xs)
    (hys.imp fun hlt => Std.Asymm.asymm _ _ hlt) ((List.mergeSort_perm _ _).trans h)
  intro a b _ _ hab hba
  exact Std.Trichotomous.trichotomous a b hba hab

/-- Lists of identifiers compare by the first identifier in which they differ. -/
instance : Std.Trichotomous (· < · : List TaskId → List TaskId → Prop) :=
  ⟨fun _ _ hab hba => List.le_antisymm hba hab⟩

end TaskOutline
