import TaskOutline.Property.Date
import TaskOutline.Toml.Value

/-! # Bare TOML values

Numbers, booleans and times are written without quotes, as one run of letters,
digits and a few signs. Only a blank between a date and a time may stand inside
one. The whole run has to be a value.
-/
namespace TaskOutline.Toml

/-- Whether a character can be part of a bare value. -/
def isBareValueChar (c : Char) : Bool :=
  c.isAlphanum || c == '+' || c == '-' || c == '.' || c == ':' || c == '_'

/-- Digits in groups with an underscore between each two, without the underscores.
Each group has at least one digit. -/
def ungroup? (isDigit : Char → Bool) (cs : List Char) : Option (List Char) :=
  let groups := cs.splitOn '_'
  if groups.all fun group => !group.isEmpty && group.all isDigit then some groups.flatten else none

/-- A sign, if there is one, and what follows it. -/
def takeSign : List Char → Option Char × List Char
  | '+' :: cs => (some '+', cs)
  | '-' :: cs => (some '-', cs)
  | cs => (none, cs)

/-- The digits of a decimal integer, which has no leading zeros. -/
def decimalDigits? (cs : List Char) : Option (List Char) := do
  let digits ← ungroup? Char.isDigit cs
  if digits.head? = some '0' ∧ digits.length ≠ 1 then none else some digits

/-- The value of a digit in a base up to sixteen. -/
def hexValue? (c : Char) : Option Nat :=
  if c.isDigit then some (c.toNat - '0'.toNat)
  else if 'a' ≤ c ∧ c ≤ 'f' then some (c.toNat - 'a'.toNat + 10)
  else if 'A' ≤ c ∧ c ≤ 'F' then some (c.toNat - 'A'.toNat + 10)
  else none

/-- Whether a character is a digit of a base up to sixteen. -/
def isDigitOf (base : Nat) (c : Char) : Bool :=
  match hexValue? c with
  | some n => n < base
  | none => false

/-- The value of digits in a base. -/
def valueIn (base : Nat) (cs : List Char) : Nat :=
  cs.foldl (fun n c => base * n + (hexValue? c).getD 0) 0

/-- An integer of 64 bits. -/
def fitInteger? (i : Int) : Option Value :=
  if -9223372036854775808 ≤ i ∧ i ≤ 9223372036854775807 then some (.integer i) else none

/-- Reads a number in a base other than ten. Such a number has no sign. -/
def readBased? (base : Nat) (cs : List Char) : Option Value := do
  let digits ← ungroup? (isDigitOf base) cs
  fitInteger? (valueIn base digits)

/-- Reads an integer. -/
def readInteger? (cs : List Char) : Option Value :=
  match cs with
  | '0' :: 'x' :: digits => readBased? 16 digits
  | '0' :: 'o' :: digits => readBased? 8 digits
  | '0' :: 'b' :: digits => readBased? 2 digits
  | cs => do
    let (sign, digits) := takeSign cs
    let n := valueIn 10 (← decimalDigits? digits)
    fitInteger? (if sign = some '-' then -Int.ofNat n else Int.ofNat n)

/-- Whether `m` times ten to the power `e` is nearer to two to the power 1024 than
to any number below it that a double can hold. -/
def overflows (m : Nat) (e : Int) : Bool :=
  let limit := Nat.pow 2 1024 - Nat.pow 2 970
  if m = 0 then false
  else if 400 < e then true
  else
    match e with
    | .ofNat k => limit ≤ m * Nat.pow 10 k
    | .negSucc k => if m.log2 < k then false else limit * Nat.pow 10 (k + 1) ≤ m

/-- What stands before a character and what stands after it. -/
def cutAt? (p : Char → Bool) (cs : List Char) : Option (List Char × List Char) :=
  match cs.dropWhile (!p ·) with
  | [] => none
  | _ :: rest => some (cs.takeWhile (!p ·), rest)

/-- The digits of an exponent and its sign. -/
def readExponent? (cs : List Char) : Option Int := do
  let (sign, digits) := takeSign cs
  let n := valueIn 10 (← ungroup? Char.isDigit digits)
  return if sign = some '-' then -Int.ofNat n else Int.ofNat n

/-- Reads a float: an integer with a fraction, an exponent, or both. A positive
one that is too large for a double is refused. -/
def readFloat? (cs : List Char) : Option Value := do
  let (sign, body) := takeSign cs
  if body = "inf".toList ∨ body = "nan".toList then
    return .float (String.ofList cs)
  let (mantissa, exponent) := match cutAt? (fun c => c == 'e' || c == 'E') body with
    | some (mantissa, exponent) => (mantissa, some exponent)
    | none => (body, none)
  let (whole, fraction) := match cutAt? (· == '.') mantissa with
    | some (whole, fraction) => (whole, some fraction)
    | none => (mantissa, none)
  if exponent.isNone ∧ fraction.isNone then none
  let whole ← decimalDigits? whole
  let fraction ← match fraction with
    | some fraction => ungroup? Char.isDigit fraction
    | none => some []
  let exponent ← match exponent with
    | some exponent => readExponent? exponent
    | none => some 0
  let m := valueIn 10 (whole ++ fraction)
  if sign ≠ some '-' ∧ overflows m (exponent - fraction.length) then none
  else some (.float (String.ofList cs))

/-- A number of two digits that is at most `most`. -/
def twoDigits? (most : Nat) (a b : Char) : Option Nat :=
  if a.isDigit ∧ b.isDigit ∧ valueIn 10 [a, b] ≤ most then some (valueIn 10 [a, b]) else none

/-- Whether this is the part of a time after the minutes: seconds, perhaps with a
fraction. What is left over is given back. -/
def takeSeconds? : List Char → Option (List Char)
  | ':' :: a :: b :: '.' :: rest => do
    let _ ← twoDigits? 60 a b
    let digits := rest.takeWhile Char.isDigit
    if digits.isEmpty then none else some (rest.dropWhile Char.isDigit)
  | ':' :: a :: b :: rest => do
    let _ ← twoDigits? 60 a b
    return rest
  | _ => none

/-- The hours and minutes of a time. What is left over is given back. -/
def takeMinutes? : List Char → Option (List Char)
  | a :: b :: ':' :: c :: d :: rest => do
    let _ ← twoDigits? 23 a b
    let _ ← twoDigits? 59 c d
    return rest
  | _ => none

/-- A time of day. What is left over is given back. -/
def takeTime? (cs : List Char) : Option (List Char) := do
  takeSeconds? (← takeMinutes? cs)

/-- Whether this is how far a time is from universal time, or nothing. -/
def isOffset : List Char → Bool
  | [] => true
  | ['Z'] | ['z'] => true
  | '+' :: rest | '-' :: rest => takeMinutes? rest == some []
  | _ => false

/-- Whether this is a day of the calendar. -/
def isDate (cs : List Char) : Bool :=
  match Date.numbers? cs with
  | some (year, month, day) => (Date.ofNumbers? year month day).isSome
  | none => false

/-- Whether this is a time of day, perhaps with its distance from universal time. -/
def isTimeWithOffset (cs : List Char) : Bool :=
  match takeTime? cs with
  | some rest => isOffset rest
  | none => false

/-- Whether this is a date, a time of day, or a date with a time. -/
def isTime (cs : List Char) : Bool :=
  isDate cs || takeTime? cs == some [] ||
    (isDate (cs.take 10) && match cs.drop 10 with
      | 'T' :: rest | 't' :: rest | ' ' :: rest => isTimeWithOffset rest
      | _ => false)

/-- Reads a bare value. -/
def readBare? (cs : List Char) : Option Value :=
  if cs = "true".toList then some (.boolean true)
  else if cs = "false".toList then some (.boolean false)
  else if isTime cs then some (.time (String.ofList cs))
  else match readFloat? cs with
    | some v => some v
    | none => readInteger? cs

end TaskOutline.Toml
