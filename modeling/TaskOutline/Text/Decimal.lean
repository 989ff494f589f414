/-! # Decimal numerals

Reading and writing natural numbers and integers in ASCII digits. A numeral
may be of any length and may begin with zeros; limits on the value are set by
whoever reads it.
-/
namespace TaskOutline.Text

/-- The value of an ASCII digit. -/
def digitValue (c : Char) : Nat :=
  c.toNat - '0'.toNat

/-- The digit of a number below ten. -/
def digitChar (n : Nat) : Char :=
  Char.ofNat ('0'.toNat + n)

/-- A numeral is one or more ASCII digits. -/
def isNumeral (cs : List Char) : Bool :=
  !cs.isEmpty && cs.all Char.isDigit

/-- The value of a numeral, most significant digit first. -/
def numeralValue (cs : List Char) : Nat :=
  cs.foldl (fun n c => 10 * n + digitValue c) 0

/-- The number that a numeral writes. -/
def readNat? (cs : List Char) : Option Nat :=
  if isNumeral cs then some (numeralValue cs) else none

/-- The integer that a numeral writes, after at most one sign. -/
def readInt? : List Char → Option Int
  | '+' :: cs => (readNat? cs).map Int.ofNat
  | '-' :: cs => (readNat? cs).map fun n => -Int.ofNat n
  | cs => (readNat? cs).map Int.ofNat

/-- The numeral of a number, without leading zeros. -/
def numeral (n : Nat) : List Char :=
  if n < 10 then [digitChar n] else numeral (n / 10) ++ [digitChar (n % 10)]

/-- The last `width` digits of a number, filled up with zeros in front. -/
def fixedNumeral : (width : Nat) → (n : Nat) → List Char
  | 0, _ => []
  | width + 1, n => fixedNumeral width (n / 10) ++ [digitChar (n % 10)]

@[simp] theorem numeralValue_nil : numeralValue [] = 0 := rfl

theorem numeralValue_concat (cs : List Char) (c : Char) :
    numeralValue (cs ++ [c]) = 10 * numeralValue cs + digitValue c := by
  simp [numeralValue]

theorem length_fixedNumeral (width n : Nat) : (fixedNumeral width n).length = width := by
  induction width generalizing n with
  | zero => rfl
  | succ width ih => simp [fixedNumeral, ih]

end TaskOutline.Text

namespace TaskOutline

/-- The number as text, without leading zeros. -/
def natText (n : Nat) : String :=
  String.ofList (Text.numeral n)

end TaskOutline
