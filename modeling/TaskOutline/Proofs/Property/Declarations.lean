import Mathlib.Data.List.Forall2
import TaskOutline.Proofs.Document.Meaning
import TaskOutline.Proofs.Property.Calendar

/-! # How priorities and deadlines are declared

A priority and a deadline are each declared by the word `none`, or by a value.  Which texts
these are is said here of the texts alone (`IsNone`, `Priority.IsSpelled`, `Date.HasForm`),
and so is what any other text is refused for.  The readers keep to it
(`Declared.declarations_exact`): the word clears the property, a number out of range is never
taken for one in it, however long it is, and a day is the one that its text names.
-/
namespace TaskOutline

open Text

/-! ## The word `none` -/

/-- The text is the word `none`, each of its letters in lower or upper case. -/
def IsNone (s : String) : Prop :=
  List.Forall₂ (fun c letter => c = letter.1 ∨ c = letter.2) s.toList
    [('n', 'N'), ('o', 'O'), ('n', 'N'), ('e', 'E')]

theorem fold_eq_noneWord_iff {s : String} : fold s.toList = noneWord.toList ↔ IsNone s := by
  have hn {c : Char} : c.toLower = 'n' ↔ c = 'n' ∨ c = 'N' := toLower_eq_iff rfl (by decide)
  have ho {c : Char} : c.toLower = 'o' ↔ c = 'o' ∨ c = 'O' := toLower_eq_iff rfl (by decide)
  have he {c : Char} : c.toLower = 'e' ↔ c = 'e' ∨ c = 'E' := toLower_eq_iff rfl (by decide)
  have hword : noneWord.toList = ['n', 'o', 'n', 'e'] := rfl
  rw [hword, fold, ← List.forall₂_eq_eq_eq, List.forall₂_map_left_iff]
  unfold IsNone
  -- letter by letter
  simp only [List.forall₂_cons_right_iff, List.forall₂_nil_right_iff, hn, ho, he]

namespace Declared

variable {α : Type} {read : String → Except Reason α} {s : String}

theorem parse_of_isNone (h : IsNone s) : parse read s = .ok .cleared := by
  rw [parse, if_pos (fold_eq_noneWord_iff.mpr h)]

theorem parse_of_not_isNone (h : ¬ IsNone s) : parse read s = (read s).map value := by
  rw [parse, if_neg (mt fold_eq_noneWord_iff.mp h)]

theorem parse_eq_cleared_iff : parse read s = .ok .cleared ↔ IsNone s := by
  constructor
  · intro h
    by_contra hnone
    rw [parse_of_not_isNone hnone] at h
    obtain ⟨a, -, hvalue⟩ := Except.map_eq_ok h
    cases hvalue
  · exact parse_of_isNone

theorem parse_eq_value_iff {a : α} :
    parse read s = .ok (.value a) ↔ ¬ IsNone s ∧ read s = .ok a := by
  constructor
  · intro h
    have hnone : ¬ IsNone s := by
      intro hnone
      rw [parse_of_isNone hnone] at h
      cases h
    rw [parse_of_not_isNone hnone] at h
    obtain ⟨b, hread, hvalue⟩ := Except.map_eq_ok h
    cases hvalue
    exact ⟨hnone, hread⟩
  · rintro ⟨hnone, hread⟩
    rw [parse_of_not_isNone hnone, hread]
    rfl

theorem parse_eq_error_iff {r : Reason} :
    parse read s = .error r ↔ ¬ IsNone s ∧ read s = .error r := by
  constructor
  · intro h
    have hnone : ¬ IsNone s := by
      intro hnone
      rw [parse_of_isNone hnone] at h
      cases h
    rw [parse_of_not_isNone hnone] at h
    exact ⟨hnone, Except.map_eq_error h⟩
  · rintro ⟨hnone, hread⟩
    rw [parse_of_not_isNone hnone, hread]
    rfl

end Declared

/-- The word has no digit and no sign at its front. -/
theorem IsNone.head {s : String} {c : Char} {cs : List Char} (h : IsNone s)
    (hs : s.toList = c :: cs) : c.isDigit = false ∧ c ≠ '+' ∧ c ≠ '-' := by
  unfold IsNone at h
  rw [hs] at h
  obtain ⟨hc | hc, -⟩ := List.forall₂_cons.mp h <;> subst hc <;> decide

/-! ## Priorities -/

namespace Priority

variable {s : String} {n : Nat}

/-- The text is an integer of 64 bits. -/
def IsInteger (s : String) : Prop :=
  ∃ i, WritesInt s.toList i ∧ -2 ^ 63 ≤ i ∧ i < 2 ^ 63

/-- The text is a digit from one to five, with any number of zeros before it and at most a
plus before these. -/
def IsSpelled (s : String) (n : Nat) : Prop :=
  ∃ sign zeros digit, s.toList = sign ++ zeros ++ [digit] ∧ (sign = [] ∨ sign = ['+']) ∧
    (∀ c ∈ zeros, c = '0') ∧ (digit, n) ∈ [('1', 1), ('2', 2), ('3', 3), ('4', 4), ('5', 5)]

theorem digit_iff {digit : Char} :
    (digit, n) ∈ [('1', 1), ('2', 2), ('3', 3), ('4', 4), ('5', 5)] ↔
      (1 ≤ n ∧ n ≤ 5) ∧ digit.isDigit = true ∧ digitValue digit = n := by
  constructor
  · intro h
    simp only [List.mem_cons, Prod.mk.injEq, List.not_mem_nil, or_false] at h
    rcases h with ⟨rfl, rfl⟩ | ⟨rfl, rfl⟩ | ⟨rfl, rfl⟩ | ⟨rfl, rfl⟩ | ⟨rfl, rfl⟩ <;> decide
  · rintro ⟨⟨hpos, hle⟩, hdigit, hvalue⟩
    have hcases : n = 1 ∨ n = 2 ∨ n = 3 ∨ n = 4 ∨ n = 5 := by omega
    rw [← digitChar_digitValue hdigit, hvalue]
    rcases hcases with rfl | rfl | rfl | rfl | rfl <;> decide

/-- A priority is spelled as a number from one to five is written. -/
theorem isSpelled_iff : IsSpelled s n ↔ WritesInt s.toList n ∧ 1 ≤ n ∧ n ≤ 5 := by
  constructor
  · rintro ⟨sign, zeros, digit, hs, hsign, hzeros, hdigit⟩
    obtain ⟨hrange, hdigit⟩ := digit_iff.mp hdigit
    have hwrites : Writes (zeros ++ [digit]) n :=
      (writes_iff_of_lt (by omega)).mpr ⟨zeros, digit, rfl, hzeros, hdigit⟩
    rw [hs]
    rcases hsign with rfl | rfl
    · exact ⟨.plain hwrites, hrange⟩
    · exact ⟨.plus hwrites, hrange⟩
  · rintro ⟨hwrites, hrange⟩
    have hspelled : ∀ sign cs, Writes cs n → (sign = [] ∨ sign = ['+']) →
        s.toList = sign ++ cs → IsSpelled s n := by
      intro sign cs hcs hsign hs
      obtain ⟨zeros, digit, rfl, hzeros, hdigit⟩ := (writes_iff_of_lt (by omega)).mp hcs
      exact ⟨sign, zeros, digit, hs.trans (List.append_assoc _ _ _).symm, hsign, hzeros,
        digit_iff.mpr ⟨hrange, hdigit⟩⟩
    generalize hs : s.toList = cs at hwrites
    generalize hi : (n : Int) = i at hwrites
    cases hwrites with
    | plain hcs =>
      obtain rfl := Int.ofNat.inj hi
      exact hspelled [] _ hcs (.inl rfl) hs
    | plus hcs =>
      obtain rfl := Int.ofNat.inj hi
      exact hspelled ['+'] _ hcs (.inr rfl) hs
    | minus _ => omega

theorem ofInt?_eq_some_iff {i : Int} {p : Priority} : ofInt? i = some p ↔ i = p.value := by
  constructor
  · intro h
    cases i with
    | ofNat n =>
      change ofNat? n = some p at h
      unfold ofNat? at h
      split at h
      · cases h
        rfl
      · cases h
    | negSucc n => cases h
  · rintro rfl
    exact dif_pos p.inRange

theorem ofInt?_eq_none_iff {i : Int} : ofInt? i = none ↔ ¬ (1 ≤ i ∧ i ≤ 5) := by
  constructor
  · rintro h ⟨hpos, hle⟩
    have hread : ofInt? i = some ⟨i.toNat, by omega⟩ := ofInt?_eq_some_iff.mpr (by simp; omega)
    rw [h] at hread
    cases hread
  · intro h
    cases hread : ofInt? i with
    | none => rfl
    | some p =>
      have hvalue := ofInt?_eq_some_iff.mp hread
      have hrange := p.inRange
      omega

theorem fitsWord_iff {i : Int} : fitsWord i = true ↔ -2 ^ 63 ≤ i ∧ i < 2 ^ 63 := by
  unfold fitsWord
  rw [Bool.and_eq_true, decide_eq_true_eq, decide_eq_true_eq]
  omega

/-- What reading a text as a priority comes to. -/
inductive Reading (s : String) : Except Reason Priority → Prop
  | number {p : Priority} : WritesInt s.toList p.value → Reading s (.ok p)
  | outOfRange {i : Int} : WritesInt s.toList i → -2 ^ 63 ≤ i ∧ i < 2 ^ 63 →
      ¬ (1 ≤ i ∧ i ≤ 5) → Reading s (.error .priorityOutOfRange)
  | notAnInteger : ¬ IsInteger s → Reading s (.error .notAnInteger)

theorem reading_parse (s : String) : Reading s (parse s) := by
  unfold parse
  cases hread : readInt? s.toList with
  | none =>
    refine .notAnInteger ?_
    rintro ⟨i, hi, -⟩
    rw [readInt?_eq_some_iff.mpr hi] at hread
    cases hread
  | some i =>
    have hwrites : WritesInt s.toList i := readInt?_eq_some_iff.mp hread
    dsimp only
    by_cases hfits : fitsWord i = true
    · rw [if_pos hfits]
      cases hp : ofInt? i with
      | some p => exact .number (ofInt?_eq_some_iff.mp hp ▸ hwrites)
      | none => exact .outOfRange hwrites (fitsWord_iff.mp hfits) (ofInt?_eq_none_iff.mp hp)
    · rw [if_neg hfits]
      refine .notAnInteger ?_
      rintro ⟨j, hj, hrange⟩
      rw [hwrites.unique hj] at hfits
      exact hfits (fitsWord_iff.mpr hrange)

theorem reading_of_parse {x : Except Reason Priority} (h : parse s = x) : Reading s x :=
  h ▸ reading_parse s

/-- A priority is read from the texts that spell one. -/
theorem parse_eq_ok_iff : (∃ p, parse s = .ok p ∧ p.value = n) ↔ IsSpelled s n := by
  rw [isSpelled_iff]
  constructor
  · rintro ⟨p, hread, rfl⟩
    cases reading_of_parse hread with
    | number hwrites => exact ⟨hwrites, p.inRange⟩
  · rintro ⟨hwrites, hrange⟩
    have h := reading_parse s
    generalize parse s = result at h ⊢
    cases h with
    | @number p hp => exact ⟨p, rfl, Int.ofNat.inj (hp.unique hwrites)⟩
    | outOfRange hi _ hout =>
      have heq := hi.unique hwrites
      omega
    | notAnInteger hnot => exact absurd ⟨n, hwrites, by omega⟩ hnot

theorem parse_eq_outOfRange_iff :
    parse s = .error .priorityOutOfRange ↔ IsInteger s ∧ ∀ n, ¬ IsSpelled s n := by
  simp only [isSpelled_iff]
  constructor
  · intro hread
    cases reading_of_parse hread with
    | @outOfRange i hi hfits hout =>
      refine ⟨⟨i, hi, hfits⟩, ?_⟩
      rintro n ⟨hn, hrange⟩
      have heq := hi.unique hn
      omega
  · rintro ⟨hinteger, hnone⟩
    have h := reading_parse s
    generalize parse s = result at h ⊢
    cases h with
    | @number p hp => exact absurd ⟨hp, p.inRange⟩ (hnone p.value)
    | outOfRange => rfl
    | notAnInteger hnot => exact absurd hinteger hnot

theorem parse_eq_notAnInteger_iff : parse s = .error .notAnInteger ↔ ¬ IsInteger s := by
  constructor
  · intro hread
    cases reading_of_parse hread with
    | notAnInteger hnot => exact hnot
  · intro hnot
    have h := reading_parse s
    generalize parse s = result at h ⊢
    cases h with
    | @number p hp =>
      have hrange := p.inRange
      exact absurd ⟨p.value, hp, by omega⟩ hnot
    | @outOfRange i hi hfits _ => exact absurd ⟨i, hi, hfits⟩ hnot
    | notAnInteger => rfl

/-- What writes an integer is not the word `none`. -/
theorem not_isNone_of_writesInt {i : Int} (h : WritesInt s.toList i) : ¬ IsNone s := by
  intro hnone
  generalize hs : s.toList = cs at h
  cases h with
  | plain hcs =>
    obtain ⟨c, cs, rfl⟩ := List.exists_cons_of_ne_nil hcs.ne_nil
    have hdigit := hcs.digits c List.mem_cons_self
    rw [(hnone.head hs).1] at hdigit
    cases hdigit
  | plus _ => exact (hnone.head hs).2.1 rfl
  | minus _ => exact (hnone.head hs).2.2 rfl

/-- How the text of a priority is read. -/
structure ReadExactly (s : String) : Prop where
  cleared : Declared.parse parse s = .ok .cleared ↔ IsNone s
  value : ∀ n, (∃ p, Declared.parse parse s = .ok (.value p) ∧ p.value = n) ↔ IsSpelled s n
  /-- An integer that is no priority is out of range. -/
  outOfRange : (∃ r, Declared.parse parse s = .error r ∧ r.message = "not in range 1..5") ↔
    IsInteger s ∧ ∀ n, ¬ IsSpelled s n
  /-- What is no integer is refused as such, and so is an integer of more than 64 bits. -/
  notAnInteger : (∃ r, Declared.parse parse s = .error r ∧ r.message = "must be an integer") ↔
    ¬ IsNone s ∧ ¬ IsInteger s
  /-- The number that is read is the one that is written, and no other. -/
  unwrapped : ∀ p i, Declared.parse parse s = .ok (.value p) → WritesInt s.toList i → i = p.value

theorem readExactly (s : String) : ReadExactly s where
  cleared := Declared.parse_eq_cleared_iff
  value n := by
    simp only [Declared.parse_eq_value_iff]
    rw [← parse_eq_ok_iff]
    constructor
    · rintro ⟨p, ⟨-, hread⟩, hvalue⟩
      exact ⟨p, hread, hvalue⟩
    · rintro ⟨p, hread, hvalue⟩
      have hwrites := (isSpelled_iff.mp (parse_eq_ok_iff.mp ⟨p, hread, hvalue⟩)).1
      exact ⟨p, ⟨not_isNone_of_writesInt hwrites, hread⟩, hvalue⟩
  outOfRange := by
    simp only [Declared.parse_eq_error_iff]
    rw [← parse_eq_outOfRange_iff]
    constructor
    · rintro ⟨r, ⟨-, hread⟩, hmessage⟩
      cases reading_of_parse hread with
      | outOfRange => exact hread
      | notAnInteger => exact absurd hmessage (by decide)
    · intro hread
      obtain ⟨⟨i, hi, -⟩, -⟩ := parse_eq_outOfRange_iff.mp hread
      exact ⟨_, ⟨not_isNone_of_writesInt hi, hread⟩, rfl⟩
  notAnInteger := by
    simp only [Declared.parse_eq_error_iff]
    rw [← parse_eq_notAnInteger_iff]
    constructor
    · rintro ⟨r, ⟨hnone, hread⟩, hmessage⟩
      cases reading_of_parse hread with
      | outOfRange => exact absurd hmessage (by decide)
      | notAnInteger => exact ⟨hnone, hread⟩
    · rintro ⟨hnone, hread⟩
      exact ⟨_, ⟨hnone, hread⟩, rfl⟩
  unwrapped p i hread hi := by
    obtain ⟨-, hread⟩ := Declared.parse_eq_value_iff.mp hread
    have hwrites := (isSpelled_iff.mp (parse_eq_ok_iff.mp ⟨p, hread, rfl⟩)).1
    exact hi.unique hwrites

end Priority

/-! ## Deadlines -/

namespace Date

variable {s : String} {year month day : Nat}

/-- A date is not the word `none`. -/
theorem HasForm.not_isNone (h : HasForm s year month day) : ¬ IsNone s := by
  intro hnone
  obtain ⟨ys, ms, ds, hs, ⟨-, hyear⟩, -⟩ := h
  obtain ⟨c, ys, rfl⟩ := List.exists_cons_of_ne_nil hyear.ne_nil
  have hdigit := hyear.digits c List.mem_cons_self
  rw [(hnone.head hs).1] at hdigit
  cases hdigit

/-- How the text of a deadline is read. -/
structure ReadExactly (s : String) : Prop where
  cleared : Declared.parse parse s = .ok .cleared ↔ IsNone s
  value : ∀ year month day,
    (∃ d, Declared.parse parse s = .ok (.value d) ∧
      d.year = year ∧ d.month = month ∧ d.day = day) ↔
      HasForm s year month day ∧ IsDay year month day
  refused : (∃ r, Declared.parse parse s = .error r) ↔
    ¬ IsNone s ∧ ∀ year month day, ¬ (HasForm s year month day ∧ IsDay year month day)
  /-- A day is displayed as the text that it is read from. -/
  text_eq : ∀ d, Declared.parse parse s = .ok (.value d) → d.text = s
  /-- Days compare as the bytes of their texts do. -/
  order : ∀ t a b, Declared.parse parse s = .ok (.value a) →
    Declared.parse parse t = .ok (.value b) →
    (a < b ↔ bytes s < bytes t) ∧ (a = b ↔ s = t) ∧ (b < a ↔ bytes t < bytes s)

theorem text_of_declared {d : Date} (h : Declared.parse parse s = .ok (.value d)) : d.text = s :=
  text_of_parse (Declared.parse_eq_value_iff.mp h).2

theorem text_injective {a b : Date} (h : a.text = b.text) : a = b := by
  have hread : Except.ok a = (Except.ok b : Except Reason Date) := by
    rw [← a.read_text, h, b.read_text]
  exact Except.ok.inj hread

theorem readExactly (s : String) : ReadExactly s where
  cleared := Declared.parse_eq_cleared_iff
  value year month day := by
    simp only [Declared.parse_eq_value_iff]
    rw [← exists_parse_iff]
    constructor
    · rintro ⟨d, ⟨-, hread⟩, hd⟩
      exact ⟨d, hread, hd⟩
    · rintro ⟨d, hread, hd⟩
      exact ⟨d, ⟨(parse_eq_ok_iff.mp hread).not_isNone, hread⟩, hd⟩
  refused := by
    simp only [Declared.parse_eq_error_iff, ← exists_parse_iff]
    cases hread : parse s with
    | error r => simp
    | ok d => simp
  text_eq d := text_of_declared
  order t a b ha hb := by
    rw [← text_of_declared ha, ← text_of_declared hb]
    refine ⟨lt_iff_bytes_lt, ?_, lt_iff_bytes_lt⟩
    exact ⟨congrArg text, text_injective⟩

end Date

/-- **Priorities and deadlines are read exactly.** -/
theorem Declared.declarations_exact (s : String) :
    Priority.ReadExactly s ∧ Date.ReadExactly s :=
  ⟨Priority.readExactly s, Date.readExactly s⟩

/-- A number that needs more than 64 bits is no integer, whatever it would wrap to. -/
example : Declared.parse Priority.parse "18446744073709551617" = .error .notAnInteger := by rfl

end TaskOutline
