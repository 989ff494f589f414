import TaskOutline.Proofs.Text.Blank
import TaskOutline.Text.Decimal

/-! # Numerals are read back

A number is read back from its numeral, and from its last digits where it has no
more than these.  Both are written from the last digit on, so that the induction
takes the last digit off.
-/
namespace TaskOutline.Text

theorem digitChar_spec {n : Nat} (h : n < 10) :
    (digitChar n).isDigit = true ∧ digitValue (digitChar n) = n := by
  have hall : ∀ i : Fin 10, (digitChar i).isDigit = true ∧ digitValue (digitChar i) = i := by
    decide
  exact hall ⟨n, h⟩

theorem range_of_isDigit {c : Char} (h : c.isDigit = true) : 48 ≤ c.toNat ∧ c.toNat ≤ 57 := by
  simp only [Char.isDigit, Bool.and_eq_true, decide_eq_true_eq] at h
  exact ⟨h.1, h.2⟩

/-- A digit is neither a blank, a dot nor a sign. -/
theorem solid_of_isDigit {c : Char} (h : c.isDigit = true) :
    isBlank c = false ∧ c ≠ '.' ∧ c ≠ '+' ∧ c ≠ '-' := by
  have hrange := range_of_isDigit h
  have hne : ∀ d : Char, ¬ (48 ≤ d.toNat ∧ d.toNat ≤ 57) → c ≠ d := by
    rintro d hd rfl
    exact hd hrange
  refine ⟨?_, hne '.' (by decide), hne '+' (by decide), hne '-' (by decide)⟩
  unfold isBlank
  simp only [Bool.or_eq_false_iff, Bool.and_eq_false_iff, decide_eq_false_iff_not, beq_eq_false_iff_ne]
  omega

theorem numeral_of_lt {n : Nat} (h : n < 10) : numeral n = [digitChar n] := by
  rw [numeral, if_pos h]

theorem numeral_of_ge {n : Nat} (h : ¬ n < 10) :
    numeral n = numeral (n / 10) ++ [digitChar (n % 10)] := by
  rw [numeral, if_neg h]

theorem isDigit_of_mem_numeral {n : Nat} {c : Char} (h : c ∈ numeral n) : c.isDigit = true := by
  induction n using numeral.induct with
  | case1 n hlt =>
    rw [numeral_of_lt hlt, List.mem_singleton] at h
    rw [h]
    exact (digitChar_spec hlt).1
  | case2 n hge ih =>
    rw [numeral_of_ge hge, List.mem_append, List.mem_singleton] at h
    rcases h with h | rfl
    · exact ih h
    · exact (digitChar_spec (Nat.mod_lt n (by decide))).1

theorem numeral_ne_nil (n : Nat) : numeral n ≠ [] := by
  by_cases h : n < 10
  · rw [numeral_of_lt h]
    exact List.cons_ne_nil _ _
  · rw [numeral_of_ge h]
    simp

theorem numeralValue_numeral (n : Nat) : numeralValue (numeral n) = n := by
  induction n using numeral.induct with
  | case1 n hlt => simpa [numeral_of_lt hlt, numeralValue] using (digitChar_spec hlt).2
  | case2 n hge ih =>
    rw [numeral_of_ge hge, numeralValue_concat, ih,
      (digitChar_spec (Nat.mod_lt n (by decide))).2]
    omega

theorem numeral_inj {m n : Nat} (h : numeral m = numeral n) : m = n := by
  rw [← numeralValue_numeral m, h, numeralValue_numeral]

/-- **A number is read back from its numeral.** -/
theorem readNat?_numeral (n : Nat) : readNat? (numeral n) = some n := by
  have hnumeral : isNumeral (numeral n) = true := by
    simp only [isNumeral, Bool.and_eq_true, List.all_eq_true]
    refine ⟨?_, fun c hc => isDigit_of_mem_numeral hc⟩
    simpa using numeral_ne_nil n
  rw [readNat?, if_pos hnumeral, numeralValue_numeral]

theorem isWord_numeral (n : Nat) : IsWord (numeral n) where
  ne_nil := numeral_ne_nil n
  solid _ hc := (solid_of_isDigit (isDigit_of_mem_numeral hc)).1

/-! ## Numerals of a fixed width -/

theorem isDigit_of_mem_fixedNumeral {width n : Nat} {c : Char} (h : c ∈ fixedNumeral width n) :
    c.isDigit = true := by
  induction width generalizing n with
  | zero => cases h
  | succ width ih =>
    rw [fixedNumeral, List.mem_append, List.mem_singleton] at h
    rcases h with h | rfl
    · exact ih h
    · exact (digitChar_spec (Nat.mod_lt n (by decide))).1

/-- A number is read back from its last digits, if they are all that it has. -/
theorem numeralValue_fixedNumeral {width n : Nat} (h : n < Nat.pow 10 width) :
    numeralValue (fixedNumeral width n) = n := by
  induction width generalizing n with
  | zero =>
    have hzero : n = 0 := Nat.lt_one_iff.mp h
    simp [fixedNumeral, hzero]
  | succ width ih =>
    have hlt : n / 10 < Nat.pow 10 width := (Nat.div_lt_iff_lt_mul (by decide)).mpr h
    rw [fixedNumeral, numeralValue_concat, ih hlt, (digitChar_spec (Nat.mod_lt n (by decide))).2]
    omega

end TaskOutline.Text
