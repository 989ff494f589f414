import Mathlib.Data.List.Induction
import Mathlib.Data.Nat.Digits.Defs
import TaskOutline.Proofs.Text.Decimal

/-! # What a numeral writes

A run of ASCII digits writes a number in base ten, whatever zeros it begins with, and an
integer is such a run with at most one sign before it.  `Writes` and `WritesInt` say this
of a text alone; the readers of numbers find exactly what is written
(`readNat?_eq_some_iff`, `readInt?_eq_some_iff`).

A number has one numeral of each width that holds it (`Writes.eq_fixedNumeral`).
-/
namespace TaskOutline.Text

/-! ## Numbers -/

/-- The text is a run of digits that writes the number in base ten. -/
structure Writes (cs : List Char) (n : Nat) : Prop where
  ne_nil : cs ≠ []
  digits : ∀ c ∈ cs, c.isDigit = true
  value : Nat.ofDigits 10 (cs.map digitValue).reverse = n

theorem ofDigits_map_digitValue (cs : List Char) :
    Nat.ofDigits 10 (cs.map digitValue).reverse = numeralValue cs := by
  induction cs using List.reverseRecOn with
  | nil => rfl
  | append_singleton cs c ih =>
    rw [numeralValue_concat, ← ih, List.map_append, List.reverse_append, List.map_singleton,
      List.reverse_singleton, List.singleton_append, Nat.ofDigits_cons]
    exact Nat.add_comm _ _

theorem isNumeral_iff {cs : List Char} :
    isNumeral cs = true ↔ cs ≠ [] ∧ ∀ c ∈ cs, c.isDigit = true := by
  simp [isNumeral]

/-- **The number that is read is the one that is written.** -/
theorem readNat?_eq_some_iff {cs : List Char} {n : Nat} : readNat? cs = some n ↔ Writes cs n := by
  unfold readNat?
  constructor
  · intro h
    split at h
    · rename_i hnumeral
      obtain ⟨hne, hdigits⟩ := isNumeral_iff.mp hnumeral
      exact ⟨hne, hdigits, (ofDigits_map_digitValue cs).trans (Option.some.inj h)⟩
    · cases h
  · intro h
    rw [if_pos (isNumeral_iff.mpr ⟨h.ne_nil, h.digits⟩), ← ofDigits_map_digitValue, h.value]

/-- No number is read from a text that is empty or has something else than digits in it. -/
theorem readNat?_eq_none_iff {cs : List Char} :
    readNat? cs = none ↔ cs = [] ∨ ∃ c ∈ cs, c.isDigit = false := by
  have hnumeral : isNumeral cs = false ↔ cs = [] ∨ ∃ c ∈ cs, c.isDigit = false := by
    rw [← Bool.not_eq_true, isNumeral_iff, not_and_or]
    simp
  rw [← hnumeral]
  unfold readNat?
  cases isNumeral cs <;> simp

/-! ## Numerals of a fixed width -/

theorem digitValue_lt {c : Char} (h : c.isDigit = true) : digitValue c < 10 := by
  obtain ⟨-, hle⟩ := range_of_isDigit h
  show c.toNat - 48 < 10
  omega

theorem digitChar_digitValue {c : Char} (h : c.isDigit = true) : digitChar (digitValue c) = c := by
  obtain ⟨hge, -⟩ := range_of_isDigit h
  have hcode : 48 + (c.toNat - 48) = c.toNat := by omega
  show Char.ofNat (48 + (c.toNat - 48)) = c
  rw [hcode, Char.ofNat_toNat]

/-- Digits are the numeral of their value in their width. -/
theorem fixedNumeral_numeralValue {cs : List Char} (h : ∀ c ∈ cs, c.isDigit = true) :
    fixedNumeral cs.length (numeralValue cs) = cs := by
  induction cs using List.reverseRecOn with
  | nil => rfl
  | append_singleton cs c ih =>
    obtain ⟨hcs, hc⟩ := List.forall_mem_append.mp h
    have hdigit : c.isDigit = true := hc c (List.mem_singleton_self c)
    have hlt := digitValue_lt hdigit
    have htens : (10 * numeralValue cs + digitValue c) / 10 = numeralValue cs := by omega
    have hones : (10 * numeralValue cs + digitValue c) % 10 = digitValue c := by omega
    rw [List.length_append, List.length_singleton, numeralValue_concat, fixedNumeral, htens, hones,
      ih hcs, digitChar_digitValue hdigit]

/-- A number is written in one way in each width. -/
theorem Writes.eq_fixedNumeral {cs : List Char} {n : Nat} (h : Writes cs n) :
    cs = fixedNumeral cs.length n := by
  rw [← h.value, ofDigits_map_digitValue, fixedNumeral_numeralValue h.digits]

/-- A number is less than what does not fit in its digits. -/
theorem Writes.lt {cs : List Char} {n : Nat} (h : Writes cs n) : n < 10 ^ cs.length := by
  have hdigits : ∀ d ∈ (cs.map digitValue).reverse, d < 10 := by
    intro d hd
    obtain ⟨c, hc, rfl⟩ := List.mem_map.mp (List.mem_reverse.mp hd)
    exact digitValue_lt (h.digits c hc)
  have hlt := Nat.ofDigits_lt_base_pow_length (by decide) hdigits
  rwa [h.value, List.length_reverse, List.length_map] at hlt

/-! ## Zeros in front -/

/-- Digits that write nothing are zeros. -/
theorem eq_replicate_of_numeralValue {cs : List Char} (h : ∀ c ∈ cs, c.isDigit = true)
    (hzero : numeralValue cs = 0) : cs = List.replicate cs.length '0' := by
  induction cs using List.reverseRecOn with
  | nil => rfl
  | append_singleton cs c ih =>
    rw [numeralValue_concat] at hzero
    obtain ⟨hcs, hc⟩ := List.forall_mem_append.mp h
    have hvalue : digitValue c = 0 := by omega
    have hlast : c = '0' := by
      rw [← digitChar_digitValue (hc c (List.mem_singleton_self c)), hvalue]
      rfl
    rw [List.length_append, List.length_singleton, List.replicate_succ', ← ih hcs (by omega), hlast]

theorem numeralValue_replicate (k : Nat) : numeralValue (List.replicate k '0') = 0 := by
  induction k with
  | zero => rfl
  | succ k ih =>
    rw [List.replicate_succ', numeralValue_concat, ih]
    rfl

/-- **A number below ten is written as zeros and one digit.** -/
theorem writes_iff_of_lt {cs : List Char} {n : Nat} (hn : n < 10) :
    Writes cs n ↔
      ∃ zeros digit, cs = zeros ++ [digit] ∧ (∀ c ∈ zeros, c = '0') ∧ digit.isDigit = true ∧
        digitValue digit = n := by
  constructor
  · intro h
    obtain ⟨zeros, digit, rfl⟩ := (List.eq_nil_or_concat cs).resolve_left h.ne_nil
    rw [List.concat_eq_append] at h ⊢
    have hvalue := h.value
    rw [ofDigits_map_digitValue, numeralValue_concat] at hvalue
    obtain ⟨hzeros, hdigit⟩ := List.forall_mem_append.mp h.digits
    have heq := eq_replicate_of_numeralValue hzeros (by omega)
    refine ⟨zeros, digit, rfl, fun c hc => ?_, hdigit digit (List.mem_singleton_self _), by omega⟩
    rw [heq] at hc
    exact List.eq_of_mem_replicate hc
  · rintro ⟨zeros, digit, rfl, hzeros, hdigit, hvalue⟩
    have hreplicate : zeros = List.replicate zeros.length '0' := List.eq_replicate_of_mem hzeros
    refine ⟨by simp, ?_, ?_⟩
    · refine List.forall_mem_append.mpr ⟨fun c hc => ?_, fun c hc => ?_⟩
      · rw [hzeros c hc]
        rfl
      · rw [List.mem_singleton.mp hc]
        exact hdigit
    · rw [ofDigits_map_digitValue, numeralValue_concat, hreplicate, numeralValue_replicate, hvalue]
      omega

/-! ## Integers -/

/-- The text writes the integer: a number, with at most one sign before it. -/
inductive WritesInt : List Char → Int → Prop
  | plain {cs : List Char} {n : Nat} : Writes cs n → WritesInt cs n
  | plus {cs : List Char} {n : Nat} : Writes cs n → WritesInt ('+' :: cs) n
  | minus {cs : List Char} {n : Nat} : Writes cs n → WritesInt ('-' :: cs) (-n)

/-- A numeral does not begin with a sign. -/
theorem Writes.head_ne {c : Char} {cs : List Char} {n : Nat} (h : Writes (c :: cs) n) :
    c ≠ '+' ∧ c ≠ '-' :=
  (solid_of_isDigit (h.digits c List.mem_cons_self)).2.2

/-- **The integer that is read is the one that is written.** -/
theorem readInt?_eq_some_iff {cs : List Char} {i : Int} :
    readInt? cs = some i ↔ WritesInt cs i := by
  constructor
  · intro h
    unfold readInt? at h
    split at h
    · obtain ⟨n, hn, rfl⟩ := Option.map_eq_some_iff.mp h
      exact .plus (readNat?_eq_some_iff.mp hn)
    · obtain ⟨n, hn, rfl⟩ := Option.map_eq_some_iff.mp h
      exact .minus (readNat?_eq_some_iff.mp hn)
    · obtain ⟨n, hn, rfl⟩ := Option.map_eq_some_iff.mp h
      exact .plain (readNat?_eq_some_iff.mp hn)
  · intro h
    cases h with
    | @plain _ n hn =>
      -- the first character is a digit, so that no sign is taken off
      obtain ⟨c, rest, rfl⟩ := List.exists_cons_of_ne_nil hn.ne_nil
      obtain ⟨hplus, hminus⟩ := hn.head_ne
      unfold readInt?
      split
      · simp_all
      · simp_all
      · rw [readNat?_eq_some_iff.mpr hn]
        rfl
    | plus hn => exact congrArg (Option.map Int.ofNat) (readNat?_eq_some_iff.mpr hn)
    | minus hn => exact congrArg (Option.map (-Int.ofNat ·)) (readNat?_eq_some_iff.mpr hn)

theorem WritesInt.unique {cs : List Char} {i j : Int} (hi : WritesInt cs i) (hj : WritesInt cs j) :
    i = j :=
  Option.some.inj ((readInt?_eq_some_iff.mpr hi).symm.trans (readInt?_eq_some_iff.mpr hj))

end TaskOutline.Text
