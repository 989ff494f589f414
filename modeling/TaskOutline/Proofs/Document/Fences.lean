import Mathlib.Data.List.Basic
import Mathlib.Data.List.GetD
import TaskOutline.Proofs.Document.Layout
import TaskOutline.Proofs.Document.Relocation

/-! # Fences in pairs

A layout is found by going through lines one by one.  Seen from the fences alone it is
simpler: they are taken two by two from the first on, and each pair is a section
(`Layout.outside_eq`).  `fences` are the indices of the fences, `fenceAt` is one of them
by number, and `pairSection` is the section of a pair of them.

Lines are taken apart at their first two fences (`Layout.fences_induction`); what a
layout makes of them then follows from three equations, one for each number of fences
that are left: none, one, or two and more.
-/
namespace TaskOutline.Layout

variable {lead front tail rest ls : List (List Char)} {opening closing : List Char}

/-! ## Lines by pairs of fences -/

/-- Lines have no fence among them, or they have a first one. -/
theorem plain_or_fence (ls : List (List Char)) :
    (∀ l ∈ ls, isFence l = false) ∨ ∃ lead fence rest, ls = lead ++ fence :: rest ∧
      (∀ l ∈ lead, isFence l = false) ∧ isFence fence = true := by
  cases hfind : ls.find? isFence with
  | none => exact .inl fun l hl => by simpa using List.find?_eq_none.mp hfind l hl
  | some fence =>
    obtain ⟨hfence, lead, rest, rfl, hlead⟩ := List.find?_eq_some_iff_append.mp hfind
    exact .inr ⟨lead, fence, rest, rfl, fun l hl => by simpa using hlead l hl, hfence⟩

/-- What holds of lines with one fence at most, and of lines with a pair of fences when
it holds of the lines after the pair, holds of all lines. -/
theorem fences_induction {motive : List (List Char) → Prop}
    (plain : ∀ ls, (∀ l ∈ ls, isFence l = false) → motive ls)
    (unpaired : ∀ lead opening tail, (∀ l ∈ lead, isFence l = false) → isFence opening = true →
      (∀ l ∈ tail, isFence l = false) → motive (lead ++ opening :: tail))
    (paired : ∀ lead opening front closing rest, (∀ l ∈ lead, isFence l = false) →
      isFence opening = true → (∀ l ∈ front, isFence l = false) → isFence closing = true →
      motive rest → motive (lead ++ (opening :: front ++ closing :: rest)))
    (ls : List (List Char)) : motive ls := by
  induction hlen : ls.length using Nat.strongRecOn generalizing ls with
  | ind n ih =>
    rcases plain_or_fence ls with hplain | ⟨lead, opening, after, rfl, hlead, hopening⟩
    · exact plain ls hplain
    rcases plain_or_fence after with htail | ⟨front, closing, rest, rfl, hfront, hclosing⟩
    · exact unpaired lead opening after hlead hopening htail
    · refine paired lead opening front closing rest hlead hopening hfront hclosing ?_
      refine ih rest.length ?_ rest rfl
      simp only [List.length_append, List.length_cons] at hlen
      omega

theorem outside_plain (n : Nat) (h : ∀ l ∈ ls, isFence l = false) :
    outside n ls = ⟨ls, [], none⟩ := by
  have happend := outside_append n h []
  rw [List.append_nil] at happend
  rw [happend]
  simp [outside]

theorem inside_plain (n : Nat) (h : ∀ l ∈ ls, isFence l = false) :
    inside n ls = (ls, none) := by
  induction ls generalizing n with
  | nil => rfl
  | cons l ls ih =>
    obtain ⟨hl, hls⟩ := List.forall_mem_cons.mp h
    rw [inside_of_plain n hl, ih (n + 1) hls]

theorem outside_unpaired (n : Nat) (hlead : ∀ l ∈ lead, isFence l = false)
    (hopening : isFence opening = true) (htail : ∀ l ∈ tail, isFence l = false) :
    outside n (lead ++ opening :: tail) = ⟨lead, [], some (n + lead.length)⟩ := by
  rw [outside_append n hlead, outside_of_open _ hopening (inside_plain _ htail),
    List.append_nil]

theorem outside_paired (n : Nat) (hlead : ∀ l ∈ lead, isFence l = false)
    (hopening : isFence opening = true) (hfront : ∀ l ∈ front, isFence l = false)
    (hclosing : isFence closing = true) (rest : List (List Char)) :
    outside n (lead ++ (opening :: front ++ closing :: rest)) =
      ⟨lead, ⟨n + lead.length, front, untilFence rest⟩ ::
        (outside (n + (lead.length + front.length + 2)) rest).sections,
        (outside (n + (lead.length + front.length + 2)) rest).unterminated⟩ := by
  have hline : n + lead.length + front.length + 2 = n + (lead.length + front.length + 2) := by
    omega
  rw [outside_append n hlead, outside_section _ hopening hfront hclosing, List.append_nil, hline,
    lead_outside]

/-! ## Fences by number -/

/-- The indices of the fences. -/
def fences (ls : List (List Char)) : List Nat := ls.findIdxs isFence

/-- The index of the fence with this number, counted from zero; where there are not so
many fences, the number of lines. -/
def fenceAt (ls : List (List Char)) (j : Nat) : Nat := (fences ls).getD j ls.length

/-- The lines after one index and before another. -/
def linesBetween (ls : List (List Char)) (i j : Nat) : List (List Char) := (ls.take j).drop (i + 1)

/-- The section of a pair of fences: the lines between the two are the front matter, and
those up to the next pair are the notes. -/
def pairSection (ls : List (List Char)) (k : Nat) : Section where
  line := fenceAt ls (2 * k) + 1
  front := linesBetween ls (fenceAt ls (2 * k)) (fenceAt ls (2 * k + 1))
  notes := linesBetween ls (fenceAt ls (2 * k + 1)) (fenceAt ls (2 * k + 2))

/-- The number of the line with the fence that has no partner, if there is one. -/
def unpaired? (ls : List (List Char)) : Option Nat :=
  if (fences ls).length % 2 = 1 then some (fenceAt ls ((fences ls).length - 1) + 1) else none

theorem length_fences (ls : List (List Char)) : (fences ls).length = ls.countP isFence :=
  List.length_findIdxs

theorem fences_plain (h : ∀ l ∈ ls, isFence l = false) : fences ls = [] :=
  List.findIdxs_eq_nil_iff.mpr h

theorem fences_append_cons (hlead : ∀ l ∈ lead, isFence l = false)
    (hopening : isFence opening = true) (rest : List (List Char)) :
    fences (lead ++ opening :: rest) =
      lead.length :: (fences rest).map (· + (lead.length + 1)) := by
  unfold fences
  rw [List.findIdxs_append, List.findIdxs_eq_nil_iff.mpr hlead, List.nil_append,
    List.findIdxs_cons, if_pos hopening, Nat.zero_add, List.findIdxs_start]

theorem fences_paired (hlead : ∀ l ∈ lead, isFence l = false) (hopening : isFence opening = true)
    (hfront : ∀ l ∈ front, isFence l = false) (hclosing : isFence closing = true)
    (rest : List (List Char)) :
    fences (lead ++ (opening :: front ++ closing :: rest)) =
      lead.length :: (lead.length + 1 + front.length) ::
        (fences rest).map (· + (lead.length + front.length + 2)) := by
  rw [List.cons_append, fences_append_cons hlead hopening, fences_append_cons hfront hclosing,
    List.map_cons, List.map_map]
  congr 2
  · omega
  · refine List.map_congr_left fun i _ => ?_
    show i + (front.length + 1) + (lead.length + 1) = _
    omega

section Paired

variable (hlead : ∀ l ∈ lead, isFence l = false) (hopening : isFence opening = true)
  (hfront : ∀ l ∈ front, isFence l = false) (hclosing : isFence closing = true)
  (rest : List (List Char))

include hlead hopening hfront hclosing

theorem fenceAt_paired_zero :
    fenceAt (lead ++ (opening :: front ++ closing :: rest)) 0 = lead.length := by
  rw [fenceAt, fences_paired hlead hopening hfront hclosing]
  rfl

theorem fenceAt_paired_one :
    fenceAt (lead ++ (opening :: front ++ closing :: rest)) 1 =
      lead.length + 1 + front.length := by
  rw [fenceAt, fences_paired hlead hopening hfront hclosing]
  rfl

theorem fenceAt_paired_add_two (j : Nat) :
    fenceAt (lead ++ (opening :: front ++ closing :: rest)) (j + 2) =
      fenceAt rest j + (lead.length + front.length + 2) := by
  have hlength : (lead ++ (opening :: front ++ closing :: rest)).length =
      rest.length + (lead.length + front.length + 2) := by
    simp only [List.length_append, List.length_cons]
    omega
  rw [fenceAt, fences_paired hlead hopening hfront hclosing, hlength, List.getD_cons_succ,
    List.getD_cons_succ, fenceAt]
  exact List.getD_map (fences rest) rest.length (· + (lead.length + front.length + 2))

end Paired

theorem linesBetween_front (lead front rest : List (List Char)) (opening closing : List Char) :
    linesBetween (lead ++ (opening :: front ++ closing :: rest)) lead.length
      (lead.length + 1 + front.length) = front := by
  have hsplit : lead ++ (opening :: front ++ closing :: rest) =
      ((lead ++ [opening]) ++ front) ++ closing :: rest := by simp
  have hlength : ((lead ++ [opening]) ++ front).length = lead.length + 1 + front.length := by
    simp only [List.length_append, List.length_cons, List.length_nil]
  rw [linesBetween, hsplit, ← hlength, List.take_left, List.drop_left' (by simp)]

/-- Lines after a pair of fences, counted from the first line on. -/
theorem drop_take_paired (lead front rest : List (List Char)) (opening closing : List Char)
    (i j : Nat) :
    ((lead ++ (opening :: front ++ closing :: rest)).take
      (j + (lead.length + front.length + 2))).drop (i + (lead.length + front.length + 2)) =
      (rest.take j).drop i := by
  have hsplit : lead ++ (opening :: front ++ closing :: rest) =
      (((lead ++ [opening]) ++ front) ++ [closing]) ++ rest := by simp
  have hlength : (((lead ++ [opening]) ++ front) ++ [closing]).length =
      lead.length + front.length + 2 := by
    simp only [List.length_append, List.length_cons, List.length_nil]
    omega
  rw [hsplit, ← hlength, Nat.add_comm i, Nat.add_comm j, List.take_length_add_append,
    List.drop_length_add_append]

theorem untilFence_append (hlead : ∀ l ∈ lead, isFence l = false)
    (hopening : isFence opening = true) (rest : List (List Char)) :
    untilFence (lead ++ opening :: rest) = lead := by
  unfold untilFence
  rw [List.takeWhile_append_of_pos (by simpa using hlead),
    List.takeWhile_cons_of_neg (by simp [hopening]), List.append_nil]

theorem untilFence_plain (h : ∀ l ∈ ls, isFence l = false) : untilFence ls = ls := by
  rw [← lead_outside 0, outside_plain 0 h]

/-- The lines up to the first fence, by its index. -/
theorem take_fenceAt_zero (ls : List (List Char)) : ls.take (fenceAt ls 0) = untilFence ls := by
  rcases plain_or_fence ls with hplain | ⟨lead, fence, rest, rfl, hlead, hfence⟩
  · rw [untilFence_plain hplain, fenceAt, fences_plain hplain, List.getD_nil, List.take_length]
  · rw [untilFence_append hlead hfence, fenceAt, fences_append_cons hlead hfence,
      List.getD_cons_zero, List.take_left]

/-! ## The layout by its fences -/

section Paired

variable (hlead : ∀ l ∈ lead, isFence l = false) (hopening : isFence opening = true)
  (hfront : ∀ l ∈ front, isFence l = false) (hclosing : isFence closing = true)
  (rest : List (List Char))

include hlead hopening hfront hclosing

theorem pairSection_paired_zero :
    pairSection (lead ++ (opening :: front ++ closing :: rest)) 0 =
      ⟨lead.length + 1, front, untilFence rest⟩ := by
  have hnotes := drop_take_paired lead front rest opening closing 0 (fenceAt rest 0)
  rw [Nat.zero_add, List.drop_zero, take_fenceAt_zero] at hnotes
  unfold pairSection
  rw [Nat.mul_zero, Nat.zero_add, Nat.zero_add, fenceAt_paired_zero hlead hopening hfront hclosing,
    fenceAt_paired_one hlead hopening hfront hclosing,
    fenceAt_paired_add_two hlead hopening hfront hclosing, linesBetween_front, linesBetween,
    show lead.length + 1 + front.length + 1 = lead.length + front.length + 2 by omega, hnotes]

theorem pairSection_paired_succ (k : Nat) :
    pairSection (lead ++ (opening :: front ++ closing :: rest)) (k + 1) =
      (pairSection rest k).move (lead.length + front.length + 2) := by
  have hbetween : ∀ i j, linesBetween (lead ++ (opening :: front ++ closing :: rest))
      (i + (lead.length + front.length + 2)) (j + (lead.length + front.length + 2)) =
      linesBetween rest i j := by
    intro i j
    rw [linesBetween, Nat.add_right_comm, drop_take_paired]
    rfl
  unfold pairSection Section.move
  rw [show 2 * (k + 1) = 2 * k + 2 by omega, show 2 * k + 2 + 1 = 2 * k + 1 + 2 by omega,
    fenceAt_paired_add_two hlead hopening hfront hclosing,
    fenceAt_paired_add_two hlead hopening hfront hclosing,
    fenceAt_paired_add_two hlead hopening hfront hclosing, hbetween, hbetween, Nat.add_right_comm]

theorem length_fences_paired :
    (fences (lead ++ (opening :: front ++ closing :: rest))).length = (fences rest).length + 2 := by
  rw [fences_paired hlead hopening hfront hclosing, List.length_cons, List.length_cons,
    List.length_map]

theorem unpaired?_paired :
    unpaired? (lead ++ (opening :: front ++ closing :: rest)) =
      (unpaired? rest).map (· + (lead.length + front.length + 2)) := by
  unfold unpaired?
  rw [length_fences_paired hlead hopening hfront hclosing, Nat.add_mod_right]
  by_cases hodd : (fences rest).length % 2 = 1
  · have hlast : (fences rest).length + 2 - 1 = (fences rest).length - 1 + 2 := by omega
    rw [if_pos hodd, if_pos hodd, hlast, fenceAt_paired_add_two hlead hopening hfront hclosing,
      Option.map_some, Nat.add_right_comm]
  · rw [if_neg hodd, if_neg hodd, Option.map_none]

end Paired

/-- **Fences are taken two by two.**  The lines before the first are the lead, each pair
is a section, and a fence without a partner is left over. -/
theorem outside_eq (n : Nat) (ls : List (List Char)) :
    outside (n + 1) ls =
      ⟨untilFence ls, (List.range ((fences ls).length / 2)).map fun k => (pairSection ls k).move n,
        (unpaired? ls).map (· + n)⟩ := by
  induction ls using fences_induction generalizing n with
  | plain ls hplain =>
    rw [outside_plain _ hplain, untilFence_plain hplain, unpaired?, fences_plain hplain]
    rfl
  | unpaired lead opening tail hlead hopening htail =>
    have hline : n + 1 + lead.length = lead.length + 1 + n := by omega
    rw [outside_unpaired _ hlead hopening htail, untilFence_append hlead hopening, unpaired?,
      fenceAt, fences_append_cons hlead hopening, fences_plain htail, hline]
    simp
  | paired lead opening front closing rest hlead hopening hfront hclosing ih =>
    have hnext : n + 1 + (lead.length + front.length + 2) =
        n + (lead.length + front.length + 2) + 1 := by omega
    have hhalf : ((fences rest).length + 2) / 2 = (fences rest).length / 2 + 1 := by omega
    have hline : n + 1 + lead.length = lead.length + 1 + n := by omega
    rw [outside_paired _ hlead hopening hfront hclosing, hnext, ih,
      length_fences_paired hlead hopening hfront hclosing, hhalf, List.range_succ_eq_map,
      List.map_cons, List.map_map, pairSection_paired_zero hlead hopening hfront hclosing,
      unpaired?_paired hlead hopening hfront hclosing, Option.map_map, hline]
    congr 1
    · exact (untilFence_append hlead hopening _).symm
    · refine congrArg (_ :: ·) (List.map_congr_left fun k _ => ?_)
      show _ = (pairSection _ (k + 1)).move n
      rw [pairSection_paired_succ hlead hopening hfront hclosing, Section.move_move, Nat.add_comm]
    · refine congrArg (Option.map · _) (funext fun i => ?_)
      show i + _ = i + _ + n
      omega

end TaskOutline.Layout
