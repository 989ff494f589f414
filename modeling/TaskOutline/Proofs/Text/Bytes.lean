import TaskOutline.Proofs.Identifier.Order
import TaskOutline.Proofs.Text.Decimal

/-! # Texts compared byte by byte

Texts are compared by the first byte in which they differ.  An ASCII text has one byte for
each character (`bytes_ofList`), and numerals of one width compare as their numbers do
(`bytesOf_fixedNumeral_lt`).
-/
namespace TaskOutline.Text

/-- The bytes of a text, in UTF-8. -/
def bytes (s : String) : List UInt8 := s.toByteArray.data.toList

/-- The bytes of characters that take one byte each. -/
def bytesOf (cs : List Char) : List UInt8 := cs.map Char.toUInt8

theorem utf8Size_eq_one {c : Char} (h : c.toNat < 128) : c.utf8Size = 1 := by
  refine Char.utf8Size_eq_one_iff.mpr (UInt32.le_iff_toNat_le.mpr ?_)
  have hmax : (127 : UInt32).toNat = 127 := rfl
  have hcode : c.val.toNat = c.toNat := rfl
  omega

/-- An ASCII text has one byte for each character. -/
theorem bytes_ofList {cs : List Char} (h : ∀ c ∈ cs, c.toNat < 128) :
    bytes (String.ofList cs) = bytesOf cs := by
  unfold bytes bytesOf
  rw [String.toByteArray_ofList, List.utf8Encode, List.toList_data_toByteArray]
  induction cs with
  | nil => rfl
  | cons c cs ih =>
    obtain ⟨hc, hcs⟩ := List.forall_mem_cons.mp h
    rw [List.flatMap_cons, List.map_cons, ih hcs,
      String.utf8EncodeChar_eq_singleton (utf8Size_eq_one hc), Char.toUInt8_val,
      List.singleton_append]

@[simp] theorem length_bytesOf (cs : List Char) : (bytesOf cs).length = cs.length :=
  List.length_map _

theorem bytesOf_append (cs ds : List Char) : bytesOf (cs ++ ds) = bytesOf cs ++ bytesOf ds :=
  List.map_append

theorem ascii_of_isDigit {c : Char} (h : c.isDigit = true) : c.toNat < 128 := by
  obtain ⟨-, hle⟩ := range_of_isDigit h
  omega

/-! ## Numerals of one width -/

theorem bytesOf_digitChar_lt {m n : Nat} (hmn : m < n) (hn : n < 10) :
    bytesOf [digitChar m] < bytesOf [digitChar n] := by
  have hall : ∀ i j : Fin 10, i.val < j.val → bytesOf [digitChar i] < bytesOf [digitChar j] := by
    decide
  exact hall ⟨m, by omega⟩ ⟨n, hn⟩ hmn

/-- **Numerals of one width compare as their numbers do**, if these have no more digits. -/
theorem bytesOf_fixedNumeral_lt {width m n : Nat} (hmn : m < n) (hn : n < Nat.pow 10 width) :
    bytesOf (fixedNumeral width m) < bytesOf (fixedNumeral width n) := by
  -- the last digit decides where the others are the same
  induction width generalizing m n with
  | zero =>
    have hzero : n = 0 := Nat.lt_one_iff.mp hn
    omega
  | succ width ih =>
    have hn' : n / 10 < Nat.pow 10 width := (Nat.div_lt_iff_lt_mul (by decide)).mpr hn
    rw [fixedNumeral, fixedNumeral, bytesOf_append, bytesOf_append]
    by_cases htens : m / 10 = n / 10
    · rw [htens]
      exact List.append_left_lt (bytesOf_digitChar_lt (by omega) (by omega))
    · refine append_lt_append (ih (by omega) hn') ?_ _ _
      simp [length_fixedNumeral]

end TaskOutline.Text
