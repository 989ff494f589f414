import TaskOutline.Property.Reason
import TaskOutline.Text.Decimal

/-! # Priority

A priority is a number from one to five, one being the most urgent. Its text
is an integer with an optional sign; an integer that needs more than 64 bits is
refused as no integer at all.
-/
namespace TaskOutline

/-- A number from one to five. -/
structure Priority where
  value : Nat
  inRange : 1 ≤ value ∧ value ≤ 5
deriving DecidableEq

namespace Priority

/-- The priority of this number, if it is in range. -/
def ofNat? (n : Nat) : Option Priority :=
  if h : 1 ≤ n ∧ n ≤ 5 then some ⟨n, h⟩ else none

/-- The priority of this integer, if it is in range. -/
def ofInt? : Int → Option Priority
  | .ofNat n => ofNat? n
  | .negSucc _ => none

/-- A priority as it is written. -/
def text (p : Priority) : String := natText p.value

instance : ToString Priority := ⟨text⟩

/-- The integers of 64 bits. -/
def fitsWord (i : Int) : Bool :=
  -9223372036854775808 ≤ i && i ≤ 9223372036854775807

/-- Reads a priority. -/
def parse (s : String) : Except Reason Priority :=
  match Text.readInt? s.toList with
  | none => .error .notAnInteger
  | some i =>
    if fitsWord i then
      match ofInt? i with
      | some p => .ok p
      | none => .error .priorityOutOfRange
    else .error .notAnInteger

end Priority

end TaskOutline
