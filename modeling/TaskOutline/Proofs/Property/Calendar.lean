import Mathlib.Data.List.Basic
import Mathlib.Tactic.MkIffOfInductiveProp
import TaskOutline.Proofs.Property.Days
import TaskOutline.Proofs.Text.Bytes
import TaskOutline.Proofs.Text.Numerals

/-! # Days and their texts

A day is written as its year in four digits, its month and its day in two, with dashes
between them (`Date.HasForm`), and only days that the calendar has are read from such
texts (`IsDay`).  Since each of the numbers has one numeral of its width, a text and the
day that is read from it determine each other (`Date.text_of_parse`); and since the
numbers come in the order of their weight, texts compare as the days do
(`Date.lt_iff_bytes_lt`).
-/
namespace TaskOutline

open Text

/-! ## The calendar -/

/-- The Gregorian calendar has this day.  There are thirty days in April, June, September
and November, twenty-eight in February, or twenty-nine in a leap year, and thirty-one in
the other months. -/
@[mk_iff] structure IsDay (year month day : Nat) : Prop where
  inYear : 1 ≤ month ∧ month ≤ 12
  inMonth : 1 ≤ day ∧ day ≤ 31
  short : month = 4 ∨ month = 6 ∨ month = 9 ∨ month = 11 → day ≤ 30
  february : month = 2 → day ≤ 29
  leap : month = 2 → day = 29 → 4 ∣ year ∧ (100 ∣ year → 400 ∣ year)

theorem isLeapYear_iff (year : Nat) :
    isLeapYear year = true ↔ 4 ∣ year ∧ (100 ∣ year → 400 ∣ year) := by
  simp only [isLeapYear, Bool.and_eq_true, Bool.or_eq_true, beq_iff_eq, bne_iff_ne]
  omega

section Months

variable (year : Nat) {month day : Nat}

theorem daysInMonth_february :
    daysInMonth year 2 = if isLeapYear year = true then 29 else 28 := rfl

theorem daysInMonth_of_short (h : month = 4 ∨ month = 6 ∨ month = 9 ∨ month = 11) :
    daysInMonth year month = 30 := by
  rcases h with rfl | rfl | rfl | rfl <;> rfl

theorem daysInMonth_of_long
    (h : month = 1 ∨ month = 3 ∨ month = 5 ∨ month = 7 ∨ month = 8 ∨ month = 10 ∨ month = 12) :
    daysInMonth year month = 31 := by
  rcases h with rfl | rfl | rfl | rfl | rfl | rfl | rfl <;> rfl

theorem daysInMonth_of_none (h : ¬ (1 ≤ month ∧ month ≤ 12)) : daysInMonth year month = 0 := by
  unfold daysInMonth
  split <;> omega

/-- A day is one of the days that its month has. -/
theorem isDay_iff_le : IsDay year month day ↔ 1 ≤ day ∧ day ≤ daysInMonth year month := by
  have hmonths : month = 2 ∨ (month = 4 ∨ month = 6 ∨ month = 9 ∨ month = 11) ∨
      (month = 1 ∨ month = 3 ∨ month = 5 ∨ month = 7 ∨ month = 8 ∨ month = 10 ∨ month = 12) ∨
      ¬ (1 ≤ month ∧ month ≤ 12) := by omega
  rw [isDay_iff]
  rcases hmonths with rfl | hshort | hlong | hnone
  · rw [daysInMonth_february]
    simp only [isLeapYear_iff, eq_self, true_imp_iff]
    split <;> omega
  · rw [daysInMonth_of_short year hshort]
    omega
  · rw [daysInMonth_of_long year hlong]
    omega
  · rw [daysInMonth_of_none year hnone]
    omega

end Months

namespace Date

/-! ## The form of a date -/

/-- The text is the three numbers in four, two and two digits, with dashes between them. -/
def HasForm (s : String) (year month day : Nat) : Prop :=
  ∃ ys ms ds, s.toList = ys ++ '-' :: ms ++ '-' :: ds ∧
    (ys.length = 4 ∧ Writes ys year) ∧ (ms.length = 2 ∧ Writes ms month) ∧
      (ds.length = 2 ∧ Writes ds day)

variable {s : String} {year month day : Nat}

theorem HasForm.year_le (h : HasForm s year month day) : year ≤ 9999 := by
  obtain ⟨ys, _, _, -, ⟨hlength, hyear⟩, -⟩ := h
  have hlt := hyear.lt
  rw [hlength] at hlt
  omega

/-- The form leaves no choice of how the numbers are written. -/
theorem HasForm.toList_eq (h : HasForm s year month day) :
    s.toList =
      fixedNumeral 4 year ++ '-' :: fixedNumeral 2 month ++ '-' :: fixedNumeral 2 day := by
  obtain ⟨ys, ms, ds, hs, ⟨hys, hyear⟩, ⟨hms, hmonth⟩, hds, hday⟩ := h
  have hys := hys ▸ hyear.eq_fixedNumeral
  have hms := hms ▸ hmonth.eq_fixedNumeral
  have hds := hds ▸ hday.eq_fixedNumeral
  rw [hs, hys, hms, hds]

/-- The numbers of a date are found where a text has its form. -/
theorem numbers?_eq_some_iff :
    numbers? s.toList = some (year, month, day) ↔ HasForm s year month day := by
  constructor
  · intro h
    unfold numbers? at h
    split at h
    · rename_i y₁ y₂ y₃ y₄ m₁ m₂ d₁ d₂ hs
      split at h
      · rename_i hall
        have hdigits : ∀ c ∈ [y₁, y₂, y₃, y₄, m₁, m₂, d₁, d₂], c.isDigit = true :=
          List.all_eq_true.mp hall
        have hwrites : ∀ cs ⊆ [y₁, y₂, y₃, y₄, m₁, m₂, d₁, d₂], cs ≠ [] →
            Writes cs (numeralValue cs) := fun cs hcs hne =>
          ⟨hne, fun c hc => hdigits c (hcs hc), ofDigits_map_digitValue cs⟩
        cases h
        exact ⟨[y₁, y₂, y₃, y₄], [m₁, m₂], [d₁, d₂], hs,
          ⟨rfl, hwrites _ (by simp) (List.cons_ne_nil _ _)⟩,
          ⟨rfl, hwrites _ (by simp) (List.cons_ne_nil _ _)⟩,
          ⟨rfl, hwrites _ (by simp) (List.cons_ne_nil _ _)⟩⟩
      · cases h
    · cases h
  · rintro ⟨ys, ms, ds, hs, ⟨hys, hyear⟩, ⟨hms, hmonth⟩, hds, hday⟩
    obtain ⟨y₁, ys, rfl⟩ := List.exists_cons_of_length_eq_add_one hys
    obtain ⟨y₂, y₃, y₄, rfl⟩ := List.length_eq_three.mp (Nat.succ.inj hys)
    obtain ⟨m₁, m₂, rfl⟩ := List.length_eq_two.mp hms
    obtain ⟨d₁, d₂, rfl⟩ := List.length_eq_two.mp hds
    have hall : [y₁, y₂, y₃, y₄, m₁, m₂, d₁, d₂].all Char.isDigit = true := by
      have hdigits := List.forall_mem_append.mpr ⟨hyear.digits,
        List.forall_mem_append.mpr ⟨hmonth.digits, hday.digits⟩⟩
      exact List.all_eq_true.mpr hdigits
    rw [hs]
    show (if _ = true then _ else _) = _
    rw [if_pos hall, ← ofDigits_map_digitValue, ← ofDigits_map_digitValue,
      ← ofDigits_map_digitValue, hyear.value, hmonth.value, hday.value]

theorem ofNumbers?_eq_some_iff {d : Date} :
    ofNumbers? year month day = some d ↔ d.year = year ∧ d.month = month ∧ d.day = day := by
  unfold ofNumbers?
  constructor
  · intro h
    split at h
    · cases h
      exact ⟨rfl, rfl, rfl⟩
    · cases h
  · rintro ⟨rfl, rfl, rfl⟩
    exact dif_pos ⟨d.year_le, d.day_pos, d.day_le⟩

/-- **A day is read from a text that has its form.** -/
theorem parse_eq_ok_iff {d : Date} : parse s = .ok d ↔ HasForm s d.year d.month d.day := by
  unfold parse
  constructor
  · intro h
    split at h
    · cases h
    · rename_i year month day hnumbers
      split at h
      · cases h
      · rename_i d' hd
        cases h
        obtain ⟨rfl, rfl, rfl⟩ := ofNumbers?_eq_some_iff.mp hd
        exact numbers?_eq_some_iff.mp hnumbers
  · intro h
    rw [numbers?_eq_some_iff.mpr h]
    simp only [ofNumbers?_eq_some_iff.mpr ⟨rfl, rfl, rfl⟩]

/-- Whatever day the calendar has can be read. -/
theorem exists_parse_iff :
    (∃ d, parse s = .ok d ∧ d.year = year ∧ d.month = month ∧ d.day = day) ↔
      HasForm s year month day ∧ IsDay year month day := by
  constructor
  · rintro ⟨d, hread, rfl, rfl, rfl⟩
    exact ⟨parse_eq_ok_iff.mp hread, (isDay_iff_le _).mpr ⟨d.day_pos, d.day_le⟩⟩
  · rintro ⟨hform, hday⟩
    obtain ⟨hpos, hle⟩ := (isDay_iff_le year).mp hday
    exact ⟨⟨year, month, day, hform.year_le, hpos, hle⟩, parse_eq_ok_iff.mpr hform, rfl, rfl, rfl⟩

/-- **A day is written as the text that it is read from.** -/
theorem text_of_parse {d : Date} (h : parse s = .ok d) : d.text = s := by
  rw [text, chars, ← (parse_eq_ok_iff.mp h).toList_eq, String.ofList_toList]

/-! ## The order of texts -/

theorem bytes_text (d : Date) :
    bytes d.text = bytesOf (fixedNumeral 4 d.year ++ '-' :: fixedNumeral 2 d.month) ++
      bytesOf ('-' :: fixedNumeral 2 d.day) := by
  have hascii : ∀ c ∈ d.chars, c.toNat < 128 := by
    intro c hc
    rcases isDigit_or_dash hc with hdigit | rfl
    · exact ascii_of_isDigit hdigit
    · decide
  rw [text, bytes_ofList hascii, chars, bytesOf_append]

/-- A later day has a later text. -/
theorem bytes_text_lt {a b : Date} (h : a < b) : bytes a.text < bytes b.text := by
  have hyear : b.year < Nat.pow 10 4 := Nat.lt_of_le_of_lt b.year_le (by decide)
  have hmonth : b.month < Nat.pow 10 2 := Nat.lt_of_le_of_lt b.month_le (by decide)
  have hday : b.day < Nat.pow 10 2 := b.day_lt
  have hwidth : ∀ d : Date,
      (bytesOf (fixedNumeral 4 d.year ++ '-' :: fixedNumeral 2 d.month)).length = 7 := by
    intro d
    simp [length_fixedNumeral]
  rw [bytes_text, bytes_text]
  rcases lt_def.mp h with hlt | ⟨heq, hlt | ⟨heq', hlt⟩⟩
  · -- the years differ
    refine append_lt_append ?_ ((hwidth a).trans (hwidth b).symm) _ _
    rw [bytesOf_append, bytesOf_append]
    exact append_lt_append (bytesOf_fixedNumeral_lt hlt hyear) (by simp [length_fixedNumeral]) _ _
  · -- the months differ
    refine append_lt_append ?_ ((hwidth a).trans (hwidth b).symm) _ _
    rw [bytesOf_append, bytesOf_append, heq]
    exact List.append_left_lt (List.cons_lt_cons_self.mpr (bytesOf_fixedNumeral_lt hlt hmonth))
  · -- the days differ
    rw [heq, heq']
    exact List.append_left_lt (List.cons_lt_cons_self.mpr (bytesOf_fixedNumeral_lt hlt hday))

/-- **Texts of days compare as the days do.** -/
theorem lt_iff_bytes_lt {a b : Date} : a < b ↔ bytes a.text < bytes b.text := by
  constructor
  · exact bytes_text_lt
  · intro h
    by_contra hnot
    by_cases hba : b < a
    · exact List.lt_asymm h (bytes_text_lt hba)
    · rw [eq_of_not_lt hnot hba] at h
      exact List.lt_irrefl _ h

end Date

end TaskOutline
