import TaskOutline.Proofs.Property.Values

/-! # The order of days

Days come one after another, and so do the months in which they lie: a day of an earlier
month is an earlier day (`Date.lt_of_inMonth_lt`), so that in a list of days in order those
of one month stand together.
-/
namespace TaskOutline

namespace Date

variable {a b c : Date}

theorem lt_def : a < b ↔ a.year < b.year ∨ (a.year = b.year ∧
    (a.month < b.month ∨ (a.month = b.month ∧ a.day < b.day))) :=
  Iff.rfl

theorem eq_of_numbers (hyear : a.year = b.year) (hmonth : a.month = b.month)
    (hday : a.day = b.day) : a = b := by
  obtain ⟨_, _, _, _, _, _⟩ := a
  obtain ⟨_, _, _, _, _, _⟩ := b
  simp only at hyear hmonth hday
  subst hyear hmonth hday
  rfl

theorem lt_asymm (hab : a < b) : ¬ b < a := by
  rw [lt_def] at hab ⊢
  omega

theorem lt_trans (hab : a < b) (hbc : b < c) : a < c := by
  rw [lt_def] at hab hbc ⊢
  omega

theorem eq_of_not_lt (hab : ¬ a < b) (hba : ¬ b < a) : a = b := by
  rw [lt_def] at hab hba
  exact eq_of_numbers (by omega) (by omega) (by omega)

instance : Std.Asymm (· < · : Date → Date → Prop) := ⟨fun _ _ => lt_asymm⟩

instance : Std.Trichotomous (· < · : Date → Date → Prop) := ⟨fun _ _ => eq_of_not_lt⟩

instance : Trans (· < · : Date → Date → Prop) (· < ·) (· < ·) := ⟨lt_trans⟩

theorem month_pos (d : Date) : 1 ≤ d.month := by
  have hpos : 1 ≤ daysInMonth d.year d.month := Nat.le_trans d.day_pos d.day_le
  unfold daysInMonth at hpos
  split at hpos <;> omega

end Date

/-! ## Months -/

/-- A month of a year. -/
structure Month where
  year : Nat
  /-- The months of a year are counted from one. -/
  number : Nat
deriving DecidableEq

namespace Month

/-- An earlier month comes first. -/
instance : LT Month :=
  ⟨fun a b => a.year < b.year ∨ (a.year = b.year ∧ a.number < b.number)⟩

variable {a b : Month}

theorem lt_def : a < b ↔ a.year < b.year ∨ (a.year = b.year ∧ a.number < b.number) := Iff.rfl

theorem eq_of_not_lt (hab : ¬ a < b) (hba : ¬ b < a) : a = b := by
  obtain ⟨_, _⟩ := a
  obtain ⟨_, _⟩ := b
  rw [lt_def] at hab hba
  simp only at hab hba
  rw [Month.mk.injEq]
  omega

instance : Std.Trichotomous (· < · : Month → Month → Prop) := ⟨fun _ _ => eq_of_not_lt⟩

/-- The names of the months, from the first on. -/
def names : List String :=
  ["January", "February", "March", "April", "May", "June", "July", "August", "September",
    "October", "November", "December"]

/-- The name of a month and its year. -/
def title (m : Month) : String :=
  names.getD (m.number - 1) "" ++ " " ++ String.ofList (Text.fixedNumeral 4 m.year)

end Month

namespace Date

/-- The month of a day. -/
def inMonth (d : Date) : Month := ⟨d.year, d.month⟩

theorem inMonth_eq_iff {a b : Date} :
    a.inMonth = b.inMonth ↔ (a.year, a.month) = (b.year, b.month) := by
  simp [inMonth]

theorem lt_of_inMonth_lt {a b : Date} (h : a.inMonth < b.inMonth) : a < b := by
  rw [Month.lt_def] at h
  rw [lt_def]
  simp only [inMonth] at h
  omega

theorem title_inMonth (d : Date) :
    d.inMonth.title = d.monthName ++ " " ++ String.ofList (Text.fixedNumeral 4 d.year) := by
  have hname : Month.names.getD (d.month - 1) "" = d.monthName := by
    have hpos := d.month_pos
    have hle := d.month_le
    have hcases : d.month = 1 ∨ d.month = 2 ∨ d.month = 3 ∨ d.month = 4 ∨ d.month = 5 ∨
        d.month = 6 ∨ d.month = 7 ∨ d.month = 8 ∨ d.month = 9 ∨ d.month = 10 ∨ d.month = 11 ∨
        d.month = 12 := by omega
    unfold monthName
    rcases hcases with h | h | h | h | h | h | h | h | h | h | h | h <;> rw [h] <;> rfl
  show Month.names.getD (d.month - 1) "" ++ _ ++ _ = _
  rw [hname]
  rfl

end Date

end TaskOutline
