import Mathlib.Data.List.Basic
import TaskOutline.Path.Place

/-! # Where a path leads, and where its place says it does

To follow a path to the letter, one has to know how far above its start it has climbed:
`Path.spot` keeps the number of levels beside the names, and does not move at the top of
the file system.  A place has only names, and a step up that finds none of them is kept
as a name.  `Path.overruns` counts these steps.

A step up takes back the name that another one has left, so that of the steps up without
a name a place keeps whether their number is odd (`foldl_place_follow`).  Main statement:
places agree exactly where spots agree in their names and overruns agree in being odd.  So
a place tells where a relative path leads as long as the path climbs over its start at
most once, and where an absolute path leads as long as it does not climb over the top.
-/
namespace TaskOutline

/-- Where a path leads, to the letter. -/
structure Spot where
  /-- Whether it is counted from the top of the file system. -/
  absolute : Bool
  /-- How many levels above the start. -/
  above : Nat
  /-- The names from there, last name first. -/
  names : List String
deriving DecidableEq

namespace Spot

/-- Follows one step.  A step up takes back the last name.  Where there is none, it leads
one level above the start, and nowhere from the top. -/
def follow (s : Spot) : Component → Spot
  | .root => s
  | .here => s
  | .up => match s.names with
    | _ :: rest => { s with names := rest }
    | [] => if s.absolute then s else { s with above := s.above + 1 }
  | .name text => { s with names := text :: s.names }

end Spot

/-- How many steps lead up where no name is left, the names before them being given last
name first. -/
def overruns (names : List String) : List Component → Nat
  | [] => 0
  | .root :: rest => overruns names rest
  | .here :: rest => overruns names rest
  | .up :: rest => match names with
    | _ :: names => overruns names rest
    | [] => overruns [] rest + 1
  | .name text :: rest => overruns (text :: names) rest

namespace Path

/-- Where a path leads, to the letter. -/
def spot (p : Path) : Spot := p.components.foldl Spot.follow ⟨p.isAbsolute, 0, []⟩

/-- How many steps of a path lead up where no name is left. -/
def overruns (p : Path) : Nat := TaskOutline.overruns [] p.components

/-- The place of a path tells where it leads: the path climbs over its start at most once,
and not at all if that is the top of the file system. -/
def StaysNear (p : Path) : Prop := p.overruns ≤ if p.isAbsolute then 0 else 1

instance (p : Path) : Decidable p.StaysNear := inferInstanceAs (Decidable (_ ≤ _))

end Path

/-! ## What a place keeps of a spot -/

/-- The names that stand for steps up without a name: one for an odd number of them, and
none for an even one. -/
def kept (n : Nat) : List String := List.replicate (n % 2) ".."

/-- A spot moves up by the overruns, unless it is counted from the top. -/
theorem foldl_spot_follow (s : Spot) (steps : List Component) :
    (steps.foldl Spot.follow s).absolute = s.absolute ∧
      (steps.foldl Spot.follow s).above =
        s.above + if s.absolute then 0 else overruns s.names steps := by
  induction steps generalizing s with
  | nil => simp [overruns]
  | cons step rest ih =>
    rw [List.foldl_cons]
    obtain ⟨habsolute, habove⟩ := ih (s.follow step)
    obtain ⟨absolute, above, names⟩ := s
    cases step with
    | root | here | name => exact ⟨habsolute, habove⟩
    | up =>
      cases names with
      | cons name names => exact ⟨habsolute, habove⟩
      | nil =>
        cases absolute with
        | true => exact ⟨habsolute, habove⟩
        | false =>
          refine ⟨habsolute, habove.trans ?_⟩
          simp only [Spot.follow, overruns, Bool.false_eq_true, if_false]
          omega

/-- **A place has the names of the spot, over those that are kept of the overruns.** -/
theorem foldl_place_follow (s : Spot) (n : Nat) (steps : List Component) :
    steps.foldl Place.follow (s.names ++ kept n) =
      (steps.foldl Spot.follow s).names ++ kept (n + overruns s.names steps) := by
  induction steps generalizing s n with
  | nil => rfl
  | cons step rest ih =>
    rw [List.foldl_cons, List.foldl_cons]
    obtain ⟨absolute, above, names⟩ := s
    cases step with
    | root | here => exact ih ⟨absolute, above, names⟩ n
    | name text => exact ih ⟨absolute, above, text :: names⟩ n
    | up =>
      cases names with
      | cons name names => exact ih ⟨absolute, above, names⟩ n
      | nil =>
        -- what is kept of the overruns so far is all that the step can take back
        have hkept : Place.follow (kept n) .up = kept (n + 1) := by
          rcases Nat.mod_two_eq_zero_or_one n with h | h
          · simp [kept, h, Place.follow, Nat.add_mod]
          · simp [kept, h, Place.follow, Nat.add_mod]
        have hnames : (Spot.follow ⟨absolute, above, []⟩ .up).names = [] := by
          cases absolute <;> rfl
        have hrest := ih (Spot.follow ⟨absolute, above, []⟩ .up) (n + 1)
        rw [hnames, List.nil_append] at hrest
        rw [List.nil_append, hkept, hrest, overruns, Nat.add_right_comm, Nat.add_assoc]

/-! ## Names of a path -/

namespace Path

theorem toList_of_step? {piece : List Char} {text : String}
    (h : step? piece = some (.name text)) : text.toList = piece ∧ piece ≠ ['.', '.'] := by
  unfold step? at h
  split at h
  · cases h
  · split at h
    · cases h
    · rename_i hne
      cases h
      exact ⟨String.toList_ofList, hne⟩

/-- The steps of a path are those of its pieces, perhaps after a first step that says where
the path starts. -/
theorem components_eq (p : Path) :
    ∃ start, p.components = start ++ (p.chars.splitOn '/').filterMap step? ∧
      (start = [] ∨ start = [.root] ∨ start = [.here]) := by
  have hsilent : step? [] = none ∧ step? ['.'] = none := ⟨rfl, rfl⟩
  unfold components
  split
  · rename_i hpieces
    exact ⟨[], by rw [hpieces]; rfl, .inl rfl⟩
  · rename_i pieces _ hpieces
    exact ⟨[.root], by rw [hpieces, List.filterMap_cons_none hsilent.1]; rfl, .inr (.inl rfl)⟩
  · rename_i pieces hpieces
    exact ⟨[.here], by rw [hpieces, List.filterMap_cons_none hsilent.2]; rfl, .inr (.inr rfl)⟩
  · exact ⟨[], rfl, .inl rfl⟩

/-- A step into a name is written as a piece of the path. -/
theorem piece_of_name_mem_components {p : Path} {text : String} (h : .name text ∈ p.components) :
    text.toList ∈ p.chars.splitOn '/' ∧ step? text.toList = some (.name text) := by
  obtain ⟨start, heq, hstart⟩ := p.components_eq
  rw [heq] at h
  rcases List.mem_append.mp h with h | h
  · rcases hstart with rfl | rfl | rfl <;> simp at h
  · obtain ⟨piece, hpiece, hstep⟩ := List.mem_filterMap.mp h
    obtain ⟨rfl, -⟩ := toList_of_step? hstep
    exact ⟨hpiece, hstep⟩

/-- No step goes into a name that reads as a step up. -/
theorem ne_of_name_mem_components {p : Path} {text : String} (h : .name text ∈ p.components) :
    text ≠ ".." := by
  rintro rfl
  exact (toList_of_step? (piece_of_name_mem_components h).2).2 rfl

end Path

/-- The names of a spot are names that were gone into. -/
theorem mem_names_foldl {s : Spot} {steps : List Component} {text : String}
    (h : text ∈ (steps.foldl Spot.follow s).names) : text ∈ s.names ∨ .name text ∈ steps := by
  induction steps generalizing s with
  | nil => exact .inl h
  | cons step rest ih =>
    obtain ⟨absolute, above, names⟩ := s
    rcases ih h with hs | hrest
    · cases step with
      | root | here => exact .inl hs
      | name text' =>
        rcases List.mem_cons.mp hs with rfl | hs
        · exact .inr List.mem_cons_self
        · exact .inl hs
      | up =>
        cases names with
        | cons name names => exact .inl (List.mem_cons_of_mem _ hs)
        | nil => cases absolute <;> exact .inl hs
    · exact .inr (List.mem_cons_of_mem _ hrest)

namespace Path

theorem up_not_mem_names (p : Path) : ".." ∉ p.spot.names := by
  intro h
  rcases mem_names_foldl h with h | h
  · cases h
  · exact ne_of_name_mem_components h rfl

theorem place_eq_spot (p : Path) :
    p.place = ⟨p.isAbsolute, (p.spot.names ++ kept p.overruns).reverse⟩ := by
  have h := foldl_place_follow ⟨p.isAbsolute, 0, []⟩ 0 p.components
  rw [Nat.zero_add] at h
  exact congrArg (fun names => Place.mk p.isAbsolute names.reverse) h

theorem spot_eq (p : Path) :
    p.spot = ⟨p.isAbsolute, if p.isAbsolute then 0 else p.overruns, p.spot.names⟩ := by
  obtain ⟨habsolute, habove⟩ := foldl_spot_follow ⟨p.isAbsolute, 0, []⟩ p.components
  rw [Nat.zero_add] at habove
  exact congrArg₂ (fun absolute above => Spot.mk absolute above p.spot.names) habsolute habove

end Path

/-- Names before those that are kept of overruns are told apart from them. -/
theorem append_kept_eq_iff {xs ys : List String} {m n : Nat} (hx : ".." ∉ xs) (hy : ".." ∉ ys) :
    xs ++ kept m = ys ++ kept n ↔ xs = ys ∧ m % 2 = n % 2 := by
  have hfilter : ∀ {zs : List String} (k : Nat), ".." ∉ zs →
      (zs ++ kept k).filter (fun z => z ≠ "..") = zs := by
    intro zs k hz
    have hzs : zs.filter (fun z => z ≠ "..") = zs :=
      List.filter_eq_self.mpr fun z hmem => decide_eq_true fun (heq : z = "..") => hz (heq ▸ hmem)
    rw [List.filter_append, hzs, kept, List.filter_replicate]
    simp
  constructor
  · intro h
    have hnames : xs = ys := by rw [← hfilter m hx, h, hfilter n hy]
    subst hnames
    have hlength := congrArg List.length (List.append_cancel_left h)
    rw [kept, kept, List.length_replicate, List.length_replicate] at hlength
    exact ⟨rfl, hlength⟩
  · rintro ⟨rfl, h⟩
    rw [kept, kept, h]

namespace Path

/-- Spots that start from the same point are the same when they lead along the same names
and, unless they start from the top, equally often over their start. -/
theorem spot_eq_iff {p q : Path} (h : p.isAbsolute = q.isAbsolute) :
    p.spot = q.spot ↔
      p.spot.names = q.spot.names ∧ (p.isAbsolute = false → p.overruns = q.overruns) := by
  rw [p.spot_eq, q.spot_eq, h]
  cases q.isAbsolute <;> simp [and_comm]

/-- **What a place tells of where a path leads.**  Two paths that start from the same
point, both at the top of the file system or neither, have the same place exactly when
they lead along the same names and both have an odd number of overruns or neither has.
So, of paths that stay near, those and only those have the same place that lead to the
same spot.  Where it is otherwise, the paths lead along the same names, and either have
two places for one spot, having started at the top, or have one place for two spots. -/
theorem place_eq_iff (p q : Path) (h : p.isAbsolute = q.isAbsolute) :
    (p.place = q.place ↔ p.spot.names = q.spot.names ∧ p.overruns % 2 = q.overruns % 2) ∧
      (p.StaysNear → q.StaysNear → (p.place = q.place ↔ p.spot = q.spot)) ∧
      (¬ (p.place = q.place ↔ p.spot = q.spot) ↔ p.spot.names = q.spot.names ∧
        if p.isAbsolute then p.overruns % 2 ≠ q.overruns % 2
        else p.overruns % 2 = q.overruns % 2 ∧ p.overruns ≠ q.overruns) := by
  have hplace : p.place = q.place ↔
      p.spot.names = q.spot.names ∧ p.overruns % 2 = q.overruns % 2 := by
    rw [p.place_eq_spot, q.place_eq_spot, h, ← append_kept_eq_iff p.up_not_mem_names
      q.up_not_mem_names]
    simp only [Place.mk.injEq, true_and, List.reverse_inj]
  have hfails : ¬ (p.place = q.place ↔ p.spot = q.spot) ↔ p.spot.names = q.spot.names ∧
      if p.isAbsolute then p.overruns % 2 ≠ q.overruns % 2
      else p.overruns % 2 = q.overruns % 2 ∧ p.overruns ≠ q.overruns := by
    rw [hplace, spot_eq_iff h]
    cases p.isAbsolute with
    | true =>
      simp only [reduceCtorEq, false_implies, and_true, if_true]
      tauto
    | false =>
      simp only [true_implies, Bool.false_eq_true, if_false]
      constructor
      · intro hne
        by_cases hnames : p.spot.names = q.spot.names
        · refine ⟨hnames, ?_⟩
          simp only [hnames, true_and] at hne
          omega
        · simp [hnames] at hne
      · rintro ⟨hnames, hodd, hne⟩ hiff
        exact hne (hiff.mp ⟨hnames, hodd⟩).2
  refine ⟨hplace, fun hp hq => ?_, hfails⟩
  by_contra hne
  obtain ⟨-, hdiffer⟩ := hfails.mp hne
  -- numbers that are not over one are the same when both are odd or neither is
  unfold StaysNear at hp hq
  rw [← h] at hq
  split at hdiffer
  · rename_i habsolute
    rw [habsolute] at hp hq
    simp only [if_true] at hp hq
    omega
  · rename_i hrelative
    simp only [hrelative, Bool.false_eq_true, if_false] at hp hq
    omega

/-- Two spellings of a path to a file beside the directory where they start. -/
theorem place_eq_iff_spellings :
    let p : Path := ⟨"../lib/./src/../x.md"⟩
    let q : Path := ⟨"a/../../lib//x.md"⟩
    p.isAbsolute = q.isAbsolute ∧ p.StaysNear ∧ q.StaysNear ∧ p.spot = ⟨false, 1, ["x.md", "lib"]⟩ ∧
      (p.place = q.place ↔ p.spot = q.spot) := by
  intro p q
  have habsolute : p.isAbsolute = q.isAbsolute := by decide
  have hp : p.StaysNear := by decide
  have hq : q.StaysNear := by decide
  exact ⟨habsolute, hp, hq, by decide, (place_eq_iff p q habsolute).2.1 hp hq⟩

/-- A second step up from the start takes back the first, and a step up from the top is
kept: there a place is no spot. -/
theorem place_ne_spot :
    (⟨"../../x"⟩ : Path).place = (⟨"x"⟩ : Path).place ∧
      (⟨"../../x"⟩ : Path).spot ≠ (⟨"x"⟩ : Path).spot ∧
    (⟨"/../x"⟩ : Path).place ≠ (⟨"/x"⟩ : Path).place ∧
      (⟨"/../x"⟩ : Path).spot = (⟨"/x"⟩ : Path).spot := by
  decide

end Path

end TaskOutline
