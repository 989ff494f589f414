import Mathlib.Data.List.TakeWhile
import TaskOutline.Text.Blank

/-! # Trimmed texts

Trimming leaves a text without blanks at its two ends, and changes no text that has
none there.  A value that is written behind a key and a blank is found again, and so
are words with blanks between them.
-/
namespace TaskOutline.Text

/-- A text without blanks at its ends. -/
structure Trimmed (cs : List Char) : Prop where
  start : ∀ c, cs.head? = some c → isBlank c = false
  stop : ∀ c, cs.getLast? = some c → isBlank c = false

/-- A word: a text without blanks, and not empty. -/
structure IsWord (cs : List Char) : Prop where
  ne_nil : cs ≠ []
  solid : ∀ c ∈ cs, isBlank c = false

theorem IsWord.trimmed {cs : List Char} (h : IsWord cs) : Trimmed cs where
  start _ hc := h.solid _ (List.mem_of_head? hc)
  stop _ hc := h.solid _ (List.mem_of_getLast? hc)

/-- Whether a text is a word can be computed. -/
theorem isWord_of_all {cs : List Char} (h : (!cs.isEmpty && cs.all fun c => !isBlank c) = true) :
    IsWord cs := by
  simp only [Bool.and_eq_true, Bool.not_eq_true', List.all_eq_true] at h
  exact ⟨by simpa using h.1, h.2⟩

/-! ## Trimming -/

theorem trimEnd_concat_of_blank (cs : List Char) {c : Char} (h : isBlank c = true) :
    trimEnd (cs ++ [c]) = trimEnd cs := by
  simp [trimEnd, h]

theorem trimEnd_concat_of_solid (cs : List Char) {c : Char} (h : isBlank c = false) :
    trimEnd (cs ++ [c]) = cs ++ [c] := by
  simp [trimEnd, h]

/-- A blank at the end goes with trimming. -/
theorem trim_concat_of_blank (cs : List Char) {c : Char} (h : isBlank c = true) :
    trim (cs ++ [c]) = trim cs := by
  unfold trim trimStart
  rw [List.dropWhile_append]
  cases hd : cs.dropWhile isBlank with
  | nil => simp [h]
  | cons d ds => exact trimEnd_concat_of_blank (d :: ds) h

theorem trimEnd_eq_self {cs : List Char} (h : ∀ c, cs.getLast? = some c → isBlank c = false) :
    trimEnd cs = cs := by
  rcases List.eq_nil_or_concat cs with rfl | ⟨ds, c, rfl⟩
  · rfl
  · rw [List.concat_eq_append] at *
    exact trimEnd_concat_of_solid ds (h c (by simp))

/-- **A text without blanks at its ends is left as it is.** -/
theorem Trimmed.trim_eq {cs : List Char} (h : Trimmed cs) : trim cs = cs := by
  cases cs with
  | nil => rfl
  | cons c cs =>
    have hc : isBlank c = false := h.start c rfl
    unfold trim trimStart
    rw [List.dropWhile_cons_of_neg (by simp [hc])]
    exact trimEnd_eq_self h.stop

theorem trimEnd_begins (cs : List Char) : trimEnd cs <+: cs := by
  unfold trimEnd
  have hsuffix := List.dropWhile_suffix (l := cs.reverse) isBlank
  rw [← List.reverse_prefix, List.reverse_reverse] at hsuffix
  exact hsuffix

theorem mem_of_mem_trim {cs : List Char} {c : Char} (h : c ∈ trim cs) : c ∈ cs :=
  (List.dropWhile_sublist isBlank).subset ((trimEnd_begins _).subset h)

/-- **Trimming leaves no blank at an end.** -/
theorem trimmed_trim (cs : List Char) : Trimmed (trim cs) where
  start c hc := by
    obtain ⟨rest, hrest⟩ : ∃ rest, trim cs = c :: rest :=
      List.head?_eq_some_iff.mp hc
    obtain ⟨more, hmore⟩ := trimEnd_begins (trimStart cs)
    have hhead : (trimStart cs).head? = some c := by
      rw [← hmore, show trimEnd (trimStart cs) = c :: rest from hrest]
      rfl
    have hnot := List.head?_dropWhile_not isBlank cs
    rw [show cs.dropWhile isBlank = trimStart cs from rfl, hhead] at hnot
    simpa using hnot
  stop c hc := by
    unfold trim trimEnd at hc
    rw [List.getLast?_reverse] at hc
    have hnot := List.head?_dropWhile_not isBlank (trimStart cs).reverse
    rw [hc] at hnot
    simpa using hnot

/-- A text is all blank when trimming leaves nothing of it. -/
theorem trim_eq_nil_iff {cs : List Char} : trim cs = [] ↔ allBlank cs = true := by
  unfold allBlank
  rw [List.all_eq_true, ← List.dropWhile_eq_nil_iff]
  show trimEnd (trimStart cs) = [] ↔ trimStart cs = []
  constructor
  · intro h
    -- what is left of `cs` has blanks only, and does not begin with one
    have hall : ∀ c ∈ trimStart cs, isBlank c = true := by
      rw [trimEnd, List.reverse_eq_nil_iff, List.dropWhile_eq_nil_iff] at h
      exact fun c hc => h c (List.mem_reverse.mpr hc)
    cases hd : trimStart cs with
    | nil => rfl
    | cons c rest =>
      have hnot := List.head?_dropWhile_not isBlank cs
      rw [show cs.dropWhile isBlank = c :: rest from hd] at hnot
      simp [hall c (hd ▸ List.mem_cons_self)] at hnot
  · intro h
    rw [h, trimEnd_nil]

theorem allBlank_of_mem {cs : List Char} {c : Char} (h : c ∈ cs) (hc : isBlank c = false) :
    allBlank cs = false := by
  unfold allBlank
  rw [List.all_eq_false]
  exact ⟨c, h, by simp [hc]⟩

/-! ## Keys and values -/

/-- A value behind a key is found again. -/
theorem cutAtBlank_append {key : List Char} (h : IsWord key) (value : List Char) :
    cutAtBlank (key ++ ' ' :: value) = (key, value) := by
  have hkey : ∀ c ∈ key, (!isBlank c) = true := fun c hc => by simp [h.solid c hc]
  have hblank : isBlank ' ' = true := by decide
  unfold cutAtBlank
  rw [List.takeWhile_append_of_pos hkey, List.dropWhile_append_of_pos hkey]
  simp [hblank]

/-- A key with a value behind it has no blanks at its ends. -/
theorem Trimmed.key_append {key value : List Char} (hkey : IsWord key) (hne : value ≠ [])
    (hvalue : Trimmed value) : Trimmed (key ++ ' ' :: value) where
  start c hc := by
    obtain ⟨k, ks, rfl⟩ := List.exists_cons_of_ne_nil hkey.ne_nil
    obtain rfl : k = c := by simpa using hc
    exact hkey.solid k List.mem_cons_self
  stop c hc := by
    obtain ⟨v, vs, rfl⟩ := List.exists_cons_of_ne_nil hne
    refine hvalue.stop c ?_
    simpa using hc

/-- What stands behind a key is part of the line. -/
theorem mem_of_mem_cutAtBlank {cs : List Char} {c : Char} (h : c ∈ (cutAtBlank cs).2) : c ∈ cs :=
  (List.dropWhile_sublist _).subset (List.mem_of_mem_drop h)

/-! ## Words -/

theorem words_of_isWord {w : List Char} (h : IsWord w) : words w = [w] := by
  unfold words
  rw [List.splitOnP_eq_singleton h.solid]
  simp [h.ne_nil]

theorem words_append {w : List Char} (h : IsWord w) (cs : List Char) :
    words (w ++ ' ' :: cs) = w :: words cs := by
  unfold words
  rw [List.splitOnP_append_cons_of_forall_mem h.solid ' ' (by decide)]
  simp [h.ne_nil]

/-- **Words with blanks between them are found again.** -/
theorem words_intercalate {ws : List (List Char)} (h : ∀ w ∈ ws, IsWord w) :
    words ([' '].intercalate ws) = ws := by
  induction ws with
  | nil => rfl
  | cons w ws ih =>
    obtain ⟨hw, hws⟩ := List.forall_mem_cons.mp h
    cases ws with
    | nil => simpa using words_of_isWord hw
    | cons w' ws =>
      rw [List.intercalate_cons_cons, List.append_assoc, List.singleton_append,
        words_append hw, ih hws]

/-- Words with blanks between them have no blanks at their ends. -/
theorem trimmed_intercalate {ws : List (List Char)} (h : ∀ w ∈ ws, IsWord w) :
    Trimmed ([' '].intercalate ws) := by
  induction ws with
  | nil => exact ⟨by simp, by simp⟩
  | cons w ws ih =>
    obtain ⟨hw, hws⟩ := List.forall_mem_cons.mp h
    cases ws with
    | nil => simpa using hw.trimmed
    | cons w' ws =>
      rw [List.intercalate_cons_cons, List.append_assoc, List.singleton_append]
      refine Trimmed.key_append hw (fun hnil => ?_) (ih hws)
      have hw' := (hws w' List.mem_cons_self).ne_nil
      cases ws <;> simp_all

/-- What stands in pieces with a separator between them stands in the separator or in a
piece. -/
theorem mem_intercalate {sep : List Char} {ws : List (List Char)} {c : Char}
    (h : c ∈ sep.intercalate ws) : c ∈ sep ∨ ∃ w ∈ ws, c ∈ w := by
  induction ws with
  | nil => cases h
  | cons w ws ih =>
    cases ws with
    | nil => exact .inr ⟨w, List.mem_cons_self, by simpa using h⟩
    | cons w' ws =>
      rw [List.intercalate_cons_cons, List.mem_append, List.mem_append] at h
      rcases h with (h | h) | h
      · exact .inr ⟨w, List.mem_cons_self, h⟩
      · exact .inl h
      · exact (ih h).imp_right fun ⟨v, hv, hc⟩ => ⟨v, List.mem_cons_of_mem w hv, hc⟩

/-- Words with blanks between them stand on one line. -/
theorem newline_not_mem_intercalate {ws : List (List Char)} (h : ∀ w ∈ ws, IsWord w) :
    '\n' ∉ [' '].intercalate ws := by
  intro hmem
  rcases mem_intercalate hmem with hsep | ⟨w, hw, hmem⟩
  · exact absurd hsep (by decide)
  · exact absurd ((h w hw).solid _ hmem) (by decide)

/-! ## Small letters -/

theorem toNat_toLower (c : Char) :
    c.toLower.toNat = if 65 ≤ c.toNat ∧ c.toNat ≤ 90 then c.toNat + 32 else c.toNat := by
  have hupper : (c.val ≥ 'A'.val ∧ c.val ≤ 'Z'.val) ↔ 65 ≤ c.toNat ∧ c.toNat ≤ 90 := by
    simp only [ge_iff_le, UInt32.le_iff_toNat_le]
    exact Iff.rfl
  unfold Char.toLower
  by_cases h : c.val ≥ 'A'.val ∧ c.val ≤ 'Z'.val
  · have hle : c.val.toNat ≤ 90 := (hupper.mp h).2
    have hstep : (32 : UInt32).toNat = 32 := rfl
    rw [dif_pos h, if_pos (hupper.mp h)]
    show (c.val + 32).toNat = c.val.toNat + 32
    rw [UInt32.toNat_add]
    omega
  · rw [dif_neg h, if_neg (mt hupper.mpr h)]

/-- The letters that fold to a small letter. -/
theorem toLower_eq_iff {c lower upper : Char} (hcase : lower.toNat = upper.toNat + 32)
    (hupper : 65 ≤ upper.toNat ∧ upper.toNat ≤ 90) :
    c.toLower = lower ↔ c = lower ∨ c = upper := by
  rw [← Char.toNat_inj, ← Char.toNat_inj, ← Char.toNat_inj, toNat_toLower]
  split <;> omega

end TaskOutline.Text
