import TaskOutline.Text.Lines

/-! # Lines put together and taken apart

Cutting a text into lines undoes joining them, as long as they are lines: `Lined`
is what a list of lines looks like that some text has.  Every part of such a list
without a gap is one again, so that the lines of a passage of a text are the lines
of the passage by itself.
-/
namespace TaskOutline.Text

/-- Lines as a text has them: each with its newline at the end and no other, the
last perhaps without. -/
inductive Lined : List (List Char) → Prop where
  | nil : Lined []
  | last {l : List Char} : l ≠ [] → '\n' ∉ l → Lined [l]
  | cons {l : List Char} {ls : List (List Char)} :
      '\n' ∉ l → Lined ls → Lined ((l ++ ['\n']) :: ls)

/-- A text that ends with its last line: it is empty or has a newline at the end. -/
def Closed (cs : List Char) : Prop := cs = [] ∨ cs.getLast? = some '\n'

theorem lines_cons_of_ne {c : Char} {cs : List Char} (h : c ≠ '\n') :
    lines (c :: cs) = match lines cs with
      | [] => [[c]]
      | l :: ls => (c :: l) :: ls := by
  cases hl : lines cs <;> simp [lines, h, hl]

theorem lines_eq_nil_iff {cs : List Char} : lines cs = [] ↔ cs = [] := by
  constructor
  · intro h
    rw [← flatten_lines cs, h]
    rfl
  · rintro rfl
    rfl

/-- The first line of a text, where it is ended by a newline. -/
theorem lines_line_append {l : List Char} (h : '\n' ∉ l) (cs : List Char) :
    lines (l ++ '\n' :: cs) = (l ++ ['\n']) :: lines cs := by
  induction l with
  | nil => exact lines_newline cs
  | cons c l ih =>
    obtain ⟨hc, hl⟩ : '\n' ≠ c ∧ '\n' ∉ l := by simpa using h
    rw [List.cons_append, lines_cons_of_ne hc.symm, ih hl]
    rfl

/-- A text without a newline is one line. -/
theorem lines_of_not_mem {l : List Char} (hne : l ≠ []) (h : '\n' ∉ l) : lines l = [l] := by
  induction l with
  | nil => exact absurd rfl hne
  | cons c l ih =>
    obtain ⟨hc, hl⟩ : '\n' ≠ c ∧ '\n' ∉ l := by simpa using h
    rw [lines_cons_of_ne hc.symm]
    by_cases hnil : l = []
    · subst hnil
      rfl
    · rw [ih hnil hl]

/-- **After a text that ends with its last line, lines are counted anew.** -/
theorem lines_append {cs : List Char} (h : Closed cs) (ds : List Char) :
    lines (cs ++ ds) = lines cs ++ lines ds := by
  induction cs with
  | nil => rfl
  | cons c cs ih =>
    by_cases hc : c = '\n'
    · -- a line ends here, and what follows ends with its last line by itself
      subst hc
      have hcs : Closed cs := by
        cases cs with
        | nil => exact .inl rfl
        | cons d cs => exact .inr (by simpa [Closed] using h)
      rw [List.cons_append, lines_newline, lines_newline, ih hcs, List.cons_append]
    · -- no line ends here, so there is more of this one
      have hne : cs ≠ [] := by
        rintro rfl
        simp [Closed, hc] at h
      have hcs : Closed cs := by
        obtain ⟨d, rest, rfl⟩ := List.exists_cons_of_ne_nil hne
        exact .inr (by simpa [Closed] using h)
      rw [List.cons_append, lines_cons_of_ne hc, lines_cons_of_ne hc, ih hcs]
      cases hl : lines cs with
      | nil => exact absurd (lines_eq_nil_iff.mp hl) hne
      | cons l ls => rfl

theorem closed_append {cs ds : List Char} (hcs : Closed cs) (hds : Closed ds) :
    Closed (cs ++ ds) := by
  by_cases h : ds = []
  · simpa [h] using hcs
  · refine .inr ?_
    rw [List.getLast?_append, hds.resolve_left h]
    rfl

theorem closed_concat (l : List Char) : Closed (l ++ ['\n']) :=
  .inr (by simp)

theorem Lined.cons_lines {c : Char} {l : List Char} {ls : List (List Char)} (hc : c ≠ '\n')
    (h : Lined (l :: ls)) : Lined ((c :: l) :: ls) := by
  generalize hall : l :: ls = all at h
  cases h with
  | nil => cases hall
  | @last l' hne hl =>
    cases hall
    refine .last (List.cons_ne_nil _ _) ?_
    simpa [hc.symm] using hl
  | @cons l' ls' hl hls =>
    cases hall
    rw [← List.cons_append]
    refine .cons ?_ hls
    simpa [hc.symm] using hl

theorem lined_lines (cs : List Char) : Lined (lines cs) := by
  induction cs with
  | nil => exact .nil
  | cons c cs ih =>
    by_cases hc : c = '\n'
    · subst hc
      rw [lines_newline]
      exact Lined.cons (show '\n' ∉ [] from List.not_mem_nil) ih
    · rw [lines_cons_of_ne hc]
      cases hl : lines cs with
      | nil => exact .last (List.cons_ne_nil _ _) (by simpa using Ne.symm hc)
      | cons l ls => exact Lined.cons_lines hc (hl ▸ ih)

/-- **Cutting undoes joining.** -/
theorem Lined.lines_flatten {ls : List (List Char)} (h : Lined ls) : lines ls.flatten = ls := by
  induction h with
  | nil => rfl
  | last hne hl => simpa using lines_of_not_mem hne hl
  | cons hl _ ih =>
    rw [List.flatten_cons, List.append_assoc, List.singleton_append, lines_line_append hl, ih]

theorem Lined.tail {l : List Char} {ls : List (List Char)} (h : Lined (l :: ls)) : Lined ls := by
  cases h with
  | last => exact .nil
  | cons _ hls => exact hls

/-- The first lines of lines are lines. -/
theorem Lined.of_append_left {ls more : List (List Char)} (h : Lined (ls ++ more)) : Lined ls := by
  induction ls with
  | nil => exact .nil
  | cons l ls ih =>
    have hls : Lined ls := ih h.tail
    generalize hall : l :: ls ++ more = all at h
    cases h with
    | nil => cases hall
    | last hne hl =>
      obtain ⟨rfl, rfl, -⟩ : l = _ ∧ ls = [] ∧ more = [] := by simpa using hall
      exact .last hne hl
    | cons hl _ =>
      cases hall
      exact .cons hl hls

theorem Lined.of_beginning {ls all : List (List Char)} (h : Lined all) (hp : ls <+: all) :
    Lined ls := by
  obtain ⟨more, rfl⟩ := hp
  exact h.of_append_left

theorem Lined.of_suffix {ls all : List (List Char)} (h : Lined all) (hs : ls <:+ all) :
    Lined ls := by
  obtain ⟨before, rfl⟩ := hs
  induction before with
  | nil => exact h
  | cons l before ih => exact ih h.tail

/-! ## Lines in another order -/

theorem Lined.exists_line {ls : List (List Char)} {l : List Char} (h : Lined ls) (hl : l ∈ ls)
    (hend : l.getLast? = some '\n') : ∃ body, '\n' ∉ body ∧ l = body ++ ['\n'] := by
  induction h with
  | nil => cases hl
  | last _ hnot =>
    obtain rfl := List.mem_singleton.mp hl
    exact absurd (List.mem_of_getLast? hend) hnot
  | @cons body ls hbody _ ih =>
    rcases List.mem_cons.mp hl with rfl | hl
    · exact ⟨body, hbody, rfl⟩
    · exact ih hl

theorem lined_append {ls more : List (List Char)}
    (h : ∀ l ∈ ls, ∃ body, '\n' ∉ body ∧ l = body ++ ['\n']) (hmore : Lined more) :
    Lined (ls ++ more) := by
  induction ls with
  | nil => exact hmore
  | cons l ls ih =>
    obtain ⟨⟨body, hbody, rfl⟩, hls⟩ := List.forall_mem_cons.mp h
    exact .cons hbody (ih hls)

/-- Every line of a text but the last has its newline. -/
theorem Lined.getLast?_eq {ls more : List (List Char)} (h : Lined (ls ++ more)) (hne : more ≠ []) :
    ∀ l ∈ ls, l.getLast? = some '\n' := by
  induction ls with
  | nil => exact List.forall_mem_nil _
  | cons l ls ih =>
    refine List.forall_mem_cons.mpr ⟨?_, ih h.tail⟩
    generalize hall : l :: ls ++ more = all at h
    cases h with
    | nil => cases hall
    | last _ _ =>
      obtain ⟨-, -, hnil⟩ : l = _ ∧ ls = [] ∧ more = [] := by simpa using hall
      exact absurd hnil hne
    | cons _ _ =>
      cases hall
      exact List.getLast?_concat

/-- Lines that each have their newline can change places. -/
theorem Lined.reorder {ls mid mid' more : List (List Char)} (h : Lined (ls ++ (mid ++ more)))
    (hends : ∀ l ∈ mid, l.getLast? = some '\n') (hperm : mid'.Perm mid) :
    Lined (ls ++ (mid' ++ more)) := by
  by_cases hnil : mid = []
  · subst hnil
    rwa [hperm.eq_nil]
  · have hmid : Lined (mid ++ more) := h.of_suffix (List.suffix_append _ _)
    have hbefore := h.getLast?_eq (List.append_ne_nil_of_left_ne_nil hnil more)
    refine lined_append (fun l hl => ?_) (lined_append (fun l hl => ?_) ?_)
    · exact h.exists_line (List.mem_append_left _ hl) (hbefore l hl)
    · have hl := hperm.mem_iff.mp hl
      exact hmid.exists_line (List.mem_append_left _ hl) (hends l hl)
    · exact hmid.of_suffix (List.suffix_append _ _)

end TaskOutline.Text
