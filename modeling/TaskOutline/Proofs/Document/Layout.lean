import TaskOutline.Document.Layout
import TaskOutline.Proofs.Text.Blank
import TaskOutline.Proofs.Text.Lines

/-! # Sections found in lines

What a layout makes of lines depends on which of them are fences.  Lines that are
none belong to where they stand; two fences with lines between them that are none
make a section, whose notes are the lines up to the next fence.
-/
namespace TaskOutline

theorem isFence_iff {l : List Char} : isFence l = true ↔ Text.trim l = ['-', '-', '-'] := by
  rw [isFence, beq_iff_eq]

theorem isFence_eq_false_iff {l : List Char} :
    isFence l = false ↔ Text.trim l ≠ ['-', '-', '-'] := by
  rw [isFence, beq_eq_false_iff_ne]

theorem isFence_newline (l : List Char) : isFence (l ++ ['\n']) = isFence l := by
  unfold isFence
  rw [Text.trim_concat_of_blank l (by decide)]

/-- The line that is written for a fence. -/
def fenceLine : List Char := ['-', '-', '-', '\n']

theorem isFence_fenceLine : isFence fenceLine = true := by decide

namespace Layout

variable {l : List Char} {ls rest : List (List Char)}

theorem outside_of_plain (n : Nat) (h : isFence l = false) :
    outside n (l :: rest) = ⟨l :: (outside (n + 1) rest).lead, (outside (n + 1) rest).sections,
      (outside (n + 1) rest).unterminated⟩ := by
  rw [outside, if_neg (by simp [h])]

theorem inside_of_plain (n : Nat) (h : isFence l = false) :
    inside n (l :: rest) = (l :: (inside (n + 1) rest).1, (inside (n + 1) rest).2) := by
  rw [inside, if_neg (by simp [h])]

theorem inside_of_fence (n : Nat) (h : isFence l = true) :
    inside n (l :: rest) = ([], some (outside (n + 1) rest)) := by
  rw [inside, if_pos h]

theorem outside_of_closed {front : List (List Char)} {after : Layout} (n : Nat)
    (h : isFence l = true) (hin : inside (n + 1) rest = (front, some after)) :
    outside n (l :: rest) = ⟨[], ⟨n, front, after.lead⟩ :: after.sections, after.unterminated⟩ := by
  rw [outside, if_pos h, hin]

theorem outside_of_open {front : List (List Char)} (n : Nat) (h : isFence l = true)
    (hin : inside (n + 1) rest = (front, none)) :
    outside n (l :: rest) = ⟨[], [], some n⟩ := by
  rw [outside, if_pos h, hin]

/-! ## Lines put in -/

/-- Lines that are no fences lead up to what follows them. -/
theorem outside_append (n : Nat) (h : ∀ l ∈ ls, isFence l = false) (rest : List (List Char)) :
    outside n (ls ++ rest) = ⟨ls ++ (outside (n + ls.length) rest).lead,
      (outside (n + ls.length) rest).sections,
      (outside (n + ls.length) rest).unterminated⟩ := by
  induction ls generalizing n with
  | nil => rfl
  | cons l ls ih =>
    obtain ⟨hl, hls⟩ := List.forall_mem_cons.mp h
    have hnext : n + 1 + ls.length = n + (l :: ls).length := by simp; omega
    rw [List.cons_append, outside_of_plain n hl, ih (n + 1) hls, hnext]
    rfl

/-- Lines that are no fences stand between the fences around them. -/
theorem inside_append (n : Nat) (h : ∀ l ∈ ls, isFence l = false) (hfence : isFence l = true)
    (rest : List (List Char)) :
    inside n (ls ++ l :: rest) = (ls, some (outside (n + ls.length + 1) rest)) := by
  induction ls generalizing n with
  | nil => exact inside_of_fence n hfence
  | cons l' ls ih =>
    obtain ⟨hl, hls⟩ := List.forall_mem_cons.mp h
    have hnext : n + 1 + ls.length + 1 = n + (l' :: ls).length + 1 := by simp; omega
    rw [List.cons_append, inside_of_plain n hl, ih (n + 1) hls, hnext]

/-- **Two fences make a section of the lines between them**, with the lines up to
the next fence as notes. -/
theorem outside_section (n : Nat) {opening closing : List Char} {front : List (List Char)}
    (hopen : isFence opening = true) (hfront : ∀ l ∈ front, isFence l = false)
    (hclose : isFence closing = true) (rest : List (List Char)) :
    outside n (opening :: front ++ closing :: rest) =
      ⟨[], ⟨n, front, (outside (n + front.length + 2) rest).lead⟩ ::
        (outside (n + front.length + 2) rest).sections,
        (outside (n + front.length + 2) rest).unterminated⟩ := by
  have hnext : n + 1 + front.length + 1 = n + front.length + 2 := by omega
  rw [List.cons_append, outside_of_closed n hopen (inside_append (n + 1) hfront hclose rest),
    hnext]

/-! ## Lines taken out -/

/-- The lines up to the next fence. -/
def untilFence (ls : List (List Char)) : List (List Char) := ls.takeWhile fun l => !isFence l

theorem lead_outside (n : Nat) (ls : List (List Char)) : (outside n ls).lead = untilFence ls := by
  unfold untilFence
  induction ls generalizing n with
  | nil => rfl
  | cons l rest ih =>
    cases h : isFence l with
    | true =>
      rw [List.takeWhile_cons_of_neg (by simp [h])]
      rcases hin : inside (n + 1) rest with ⟨front, _ | after⟩
      · rw [outside_of_open n h hin]
      · rw [outside_of_closed n h hin]
    | false =>
      rw [outside_of_plain n h, List.takeWhile_cons_of_pos (by simp [h]), ih]

/-- Where a section has its lines from. -/
structure Drawn (ls : List (List Char)) (s : Section) : Prop where
  front : ∀ l ∈ s.front, l ∈ ls
  notes : ∃ rest, rest <:+ ls ∧ s.notes = untilFence rest

theorem Drawn.of_suffix {s : Section} (h : Drawn rest s) (hsuffix : rest <:+ ls) : Drawn ls s where
  front l hl := hsuffix.subset (h.front l hl)
  notes := by
    obtain ⟨more, hmore, hnotes⟩ := h.notes
    exact ⟨more, hmore.trans hsuffix, hnotes⟩

/-- **The lines of a section are lines of the text**, and its notes are a passage. -/
theorem drawn_of_mem (n : Nat) (ls : List (List Char)) :
    (∀ s ∈ (outside n ls).sections, Drawn ls s) ∧
      ∀ front after, inside n ls = (front, some after) →
        (∀ l ∈ front, l ∈ ls) ∧ (∃ rest, rest <:+ ls ∧ after.lead = untilFence rest) ∧
          ∀ s ∈ after.sections, Drawn ls s := by
  -- at a fence each of the two readers hands over to the other
  induction ls generalizing n with
  | nil =>
    refine ⟨fun s hs => ?_, fun front after hin => ?_⟩
    · simp [outside] at hs
    · simp [inside] at hin
  | cons l rest ih =>
    have hsuffix : rest <:+ l :: rest := List.suffix_cons l rest
    obtain ⟨hout, hin⟩ := ih (n + 1)
    cases h : isFence l with
    | true =>
      refine ⟨fun s hs => ?_, fun front after heq => ?_⟩
      · rcases hinside : inside (n + 1) rest with ⟨front, _ | after⟩
        · rw [outside_of_open n h hinside] at hs
          cases hs
        · rw [outside_of_closed n h hinside] at hs
          obtain ⟨hfront, hnotes, hsections⟩ := hin front after hinside
          rcases List.mem_cons.mp hs with rfl | hs
          · exact (Drawn.mk hfront hnotes).of_suffix hsuffix
          · exact (hsections s hs).of_suffix hsuffix
      · rw [inside_of_fence n h] at heq
        cases heq
        refine ⟨fun l hl => absurd hl List.not_mem_nil, ⟨rest, hsuffix, lead_outside _ _⟩,
          fun s hs => (hout s hs).of_suffix hsuffix⟩
    | false =>
      refine ⟨fun s hs => ?_, fun front after heq => ?_⟩
      · rw [outside_of_plain n h] at hs
        exact (hout s hs).of_suffix hsuffix
      · rw [inside_of_plain n h] at heq
        obtain ⟨rfl, hafter⟩ := Prod.mk.inj heq
        obtain ⟨hfront, ⟨more, hmore, hlead⟩, hsections⟩ :=
          hin (inside (n + 1) rest).1 after (by rw [← hafter])
        refine ⟨?_, ⟨more, hmore.trans hsuffix, hlead⟩, fun s hs =>
          (hsections s hs).of_suffix hsuffix⟩
        intro l' hl'
        rcases List.mem_cons.mp hl' with rfl | hl'
        · exact List.mem_cons_self
        · exact List.mem_cons_of_mem _ (hfront l' hl')

/-- The notes of a section of a text are lines, and none of them is a fence. -/
theorem Drawn.lined_notes {s : Section} (h : Drawn ls s) (hls : Text.Lined ls) :
    Text.Lined s.notes ∧ ∀ l ∈ s.notes, isFence l = false := by
  obtain ⟨rest, hsuffix, hnotes⟩ := h.notes
  rw [hnotes]
  refine ⟨(hls.of_suffix hsuffix).of_beginning (List.takeWhile_prefix _), fun l hl => ?_⟩
  have hall := List.all_takeWhile (p := fun l => !isFence l) (l := rest)
  rw [List.all_eq_true] at hall
  simpa using hall l hl

end Layout

end TaskOutline
