/-! # Task identifiers

An identifier names a place in the outline: a nonempty list of positive
segments, one per level, so that `1.1.2` is the second child of `1.1`.
Identifiers are ordered segment by segment, a parent before its descendants;
going through them in order is a depth-first walk of the outline.
-/
namespace TaskOutline

/-- The largest number that a segment may be. -/
def maxSegment : Nat := 4294967295

/-- A segment is a positive number that fits in 32 bits. -/
def IsSegment (n : Nat) : Prop := 0 < n ∧ n ≤ maxSegment

instance (n : Nat) : Decidable (IsSegment n) :=
  inferInstanceAs (Decidable (0 < n ∧ n ≤ maxSegment))

/-- The identifier of a task. -/
structure TaskId where
  /-- The position at each level, from the top. -/
  segments : List Nat
  nonempty : segments ≠ []
  inRange : ∀ n ∈ segments, IsSegment n
deriving DecidableEq

namespace TaskId

theorem ext {a b : TaskId} (h : a.segments = b.segments) : a = b := by
  cases a; cases b; cases h; rfl

/-- The identifier with these segments, if they are some and all in range. -/
def ofSegments? (segments : List Nat) : Option TaskId :=
  if h : segments ≠ [] ∧ ∀ n ∈ segments, IsSegment n then some ⟨segments, h.1, h.2⟩ else none

/-- How many levels down the identifier lies; a top-level one has depth zero. -/
def depth (id : TaskId) : Nat :=
  id.segments.length - 1

/-- The identifier one level up. A top-level identifier has none. -/
def parent? (id : TaskId) : Option TaskId :=
  if h : id.segments.dropLast = [] then none
  else some ⟨id.segments.dropLast, h, fun n hn => id.inRange n ((List.dropLast_sublist _).subset hn)⟩

theorem segments_of_parent? {id p : TaskId} (h : id.parent? = some p) :
    p.segments = id.segments.dropLast := by
  unfold parent? at h
  split at h
  · simp at h
  · cases h; rfl

theorem length_parent?_lt {id p : TaskId} (h : id.parent? = some p) :
    p.segments.length < id.segments.length := by
  rw [segments_of_parent? h, List.length_dropLast]
  have : id.segments.length ≠ 0 := by simp [id.nonempty]
  omega

/-- Every identifier above, the nearest first. -/
def ancestors (id : TaskId) : List TaskId :=
  match _above : id.parent? with
  | none => []
  | some p => p :: p.ancestors
termination_by id.segments.length
decreasing_by exact length_parent?_lt _above

/-- Identifiers compare by the first segment in which they differ; where one is
the beginning of the other, the shorter comes first. -/
instance : LT TaskId := ⟨fun a b => a.segments < b.segments⟩

theorem lt_def {a b : TaskId} : a < b ↔ a.segments < b.segments := Iff.rfl

instance (a b : TaskId) : Decidable (a < b) :=
  inferInstanceAs (Decidable (a.segments < b.segments))

theorem lt_irrefl (a : TaskId) : ¬ a < a :=
  List.lt_irrefl a.segments

theorem lt_trans {a b c : TaskId} (hab : a < b) (hbc : b < c) : a < c := by
  rw [lt_def] at *
  exact List.lt_trans hab hbc

theorem ne_of_lt {a b : TaskId} (h : a < b) : a ≠ b := by
  rintro rfl
  exact lt_irrefl a h

theorem lt_of_not_lt_of_ne {a b : TaskId} (h : ¬ a < b) (hne : a ≠ b) : b < a := by
  refine Classical.byContradiction fun h' => hne (ext ?_)
  rw [lt_def, List.not_lt] at h h'
  exact List.le_antisymm h' h

instance : Ord TaskId :=
  ⟨fun a b => if a < b then .lt else if a = b then .eq else .gt⟩

end TaskId

end TaskOutline
