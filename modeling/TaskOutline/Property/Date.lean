import TaskOutline.Property.Reason
import TaskOutline.Text.Decimal

/-! # Dates

The days of the years 0 to 9999 in the Gregorian calendar, extended backwards
to before its adoption. A date is written `YYYY-MM-DD` and read from that form
alone.
-/
namespace TaskOutline

/-- A year is a leap year when four divides it, but not one hundred, unless
four hundred does. -/
def isLeapYear (year : Nat) : Bool :=
  year % 4 == 0 && (year % 100 != 0 || year % 400 == 0)

/-- How many days a month has. There are twelve months, counted from one. -/
def daysInMonth (year month : Nat) : Nat :=
  match month with
  | 1 | 3 | 5 | 7 | 8 | 10 | 12 => 31
  | 4 | 6 | 9 | 11 => 30
  | 2 => if isLeapYear year then 29 else 28
  | _ => 0

/-- A day of the calendar. -/
structure Date where
  year : Nat
  month : Nat
  day : Nat
  year_le : year ≤ 9999
  day_pos : 1 ≤ day
  day_le : day ≤ daysInMonth year month
deriving DecidableEq

namespace Date

/-- The day with these numbers, if the calendar has it. -/
def ofNumbers? (year month day : Nat) : Option Date :=
  if h : year ≤ 9999 ∧ 1 ≤ day ∧ day ≤ daysInMonth year month then
    some ⟨year, month, day, h.1, h.2.1, h.2.2⟩
  else none

/-- An earlier day comes first. -/
instance : LT Date :=
  ⟨fun a b => a.year < b.year ∨ (a.year = b.year ∧
    (a.month < b.month ∨ (a.month = b.month ∧ a.day < b.day)))⟩

instance (a b : Date) : Decidable (a < b) :=
  inferInstanceAs (Decidable (a.year < b.year ∨ (a.year = b.year ∧
    (a.month < b.month ∨ (a.month = b.month ∧ a.day < b.day)))))

/-- The characters of a date. -/
def chars (d : Date) : List Char :=
  Text.fixedNumeral 4 d.year ++ '-' :: Text.fixedNumeral 2 d.month ++
    '-' :: Text.fixedNumeral 2 d.day

/-- A date as it is written. -/
def text (d : Date) : String := String.ofList d.chars

instance : ToString Date := ⟨text⟩

/-- The three numbers in a text of the form `YYYY-MM-DD`. -/
def numbers? : List Char → Option (Nat × Nat × Nat)
  | [y₁, y₂, y₃, y₄, '-', m₁, m₂, '-', d₁, d₂] =>
    if [y₁, y₂, y₃, y₄, m₁, m₂, d₁, d₂].all Char.isDigit then
      some (Text.numeralValue [y₁, y₂, y₃, y₄], Text.numeralValue [m₁, m₂],
        Text.numeralValue [d₁, d₂])
    else none
  | _ => none

/-- Reads a date. -/
def parse (s : String) : Except Reason Date :=
  match numbers? s.toList with
  | none => .error .notADateForm
  | some (year, month, day) =>
    match ofNumbers? year month day with
    | none => .error .noSuchDay
    | some d => .ok d

/-- The name of a month. -/
def monthName (d : Date) : String :=
  match d.month with
  | 1 => "January"
  | 2 => "February"
  | 3 => "March"
  | 4 => "April"
  | 5 => "May"
  | 6 => "June"
  | 7 => "July"
  | 8 => "August"
  | 9 => "September"
  | 10 => "October"
  | 11 => "November"
  | _ => "December"

/-- The days of the years before this one, from the year 0 on. -/
def daysBeforeYear (year : Nat) : Nat :=
  365 * year + (year + 3) / 4 - (year + 99) / 100 + (year + 399) / 400

/-- The days of the months before this one in its year. -/
def daysBeforeMonth (year month : Nat) : Nat :=
  (List.range (month - 1)).foldl (fun days m => days + daysInMonth year (m + 1)) 0

/-- How many days lie before this one, from the first day of the year 0 on. -/
def dayNumber (d : Date) : Nat :=
  daysBeforeYear d.year + daysBeforeMonth d.year d.month + (d.day - 1)

/-- The name of the day of the week. The first day of the year 0 is a Saturday. -/
def weekdayName (d : Date) : String :=
  match d.dayNumber % 7 with
  | 0 => "Saturday"
  | 1 => "Sunday"
  | 2 => "Monday"
  | 3 => "Tuesday"
  | 4 => "Wednesday"
  | 5 => "Thursday"
  | _ => "Friday"

end Date

end TaskOutline
