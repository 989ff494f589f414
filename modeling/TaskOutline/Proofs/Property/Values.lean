import TaskOutline.Document.Field
import TaskOutline.Proofs.Text.Decimal

/-! # Values are read back

The value of each property is read back from the text that is written for it, and
this text can stand behind a key: it is a word, or words with blanks between them.
-/
namespace TaskOutline

open Text

/-! ## Identifiers -/

namespace TaskId

theorem readSegment_numeral {n : Nat} (h : IsSegment n) :
    readSegment (numeral n) = .ok ⟨n, h⟩ := by
  obtain ⟨hpos, hmax⟩ := h
  unfold readSegment
  rw [readNat?_numeral]
  simp [Nat.ne_of_gt hpos, hmax]

theorem readSegments_numerals {ns : List Nat} (h : ∀ n ∈ ns, IsSegment n) :
    readSegments (ns.map numeral) = .ok ⟨ns, h⟩ := by
  induction ns with
  | nil => rfl
  | cons n ns ih =>
    obtain ⟨hn, hns⟩ := List.forall_mem_cons.mp h
    rw [List.map_cons, readSegments, readSegment_numeral hn, ih hns]
    rfl

theorem splitOn_chars (id : TaskId) : id.chars.splitOn '.' = id.segments.map numeral := by
  refine List.splitOn_intercalate '.' ?_ (by simpa using id.nonempty)
  intro l hl hdot
  obtain ⟨n, -, rfl⟩ := List.mem_map.mp hl
  exact (solid_of_isDigit (isDigit_of_mem_numeral hdot)).2.1 rfl

theorem chars_solid {ns : List Nat} {c : Char}
    (h : c ∈ ['.'].intercalate (ns.map numeral)) : c.isDigit = true ∨ c = '.' := by
  rcases mem_intercalate h with hsep | ⟨w, hw, hc⟩
  · exact .inr (List.mem_singleton.mp hsep)
  · obtain ⟨n, -, rfl⟩ := List.mem_map.mp hw
    exact .inl (isDigit_of_mem_numeral hc)

theorem isWord_chars (id : TaskId) : IsWord id.chars where
  ne_nil h := by
    have hsplit := id.splitOn_chars
    obtain ⟨n, ns, hns⟩ := List.exists_cons_of_ne_nil id.nonempty
    rw [h, hns] at hsplit
    simp only [List.splitOn_nil, List.map_cons, List.cons.injEq] at hsplit
    exact numeral_ne_nil n hsplit.1.symm
  solid c hc := by
    rcases chars_solid hc with hdigit | rfl
    · exact (solid_of_isDigit hdigit).1
    · decide

/-- **An identifier is read back from its text.** -/
theorem read_text (id : TaskId) : parse id.text = .ok id := by
  unfold parse text
  rw [String.toList_ofList, id.isWord_chars.trimmed.trim_eq, readTrimmed,
    if_neg id.isWord_chars.ne_nil, splitOn_chars]
  obtain ⟨segments, hne, hrange⟩ := id
  obtain ⟨n, ns, rfl⟩ := List.exists_cons_of_ne_nil hne
  obtain ⟨hn, hns⟩ := List.forall_mem_cons.mp hrange
  show (readSegment (numeral n) >>= fun n => _) = _
  rw [readSegment_numeral hn]
  show (readSegments (ns.map numeral) >>= fun ns => _) = _
  rw [readSegments_numerals hns]
  rfl

theorem isWord_text (id : TaskId) : IsWord id.text.toList := by
  rw [text, String.toList_ofList]
  exact id.isWord_chars

end TaskId

/-! ## Status, priority, and deadline -/

theorem Status.read_text (s : Status) : parse s.text = .ok s := by
  cases s <;> rfl

theorem Status.isWord_text (s : Status) : IsWord s.text.toList := by
  cases s <;> exact isWord_of_all rfl

theorem natText_of_lt {n : Nat} (h : n < 10) : natText n = String.ofList [digitChar n] := by
  rw [natText, numeral_of_lt h]

theorem Priority.read_text (p : Priority) : parse p.text = .ok p := by
  obtain ⟨n, h⟩ := p
  have hlt : n < 10 := by omega
  rw [text, natText_of_lt hlt, parse, String.toList_ofList]
  have hcases : n = 1 ∨ n = 2 ∨ n = 3 ∨ n = 4 ∨ n = 5 := by omega
  rcases hcases with rfl | rfl | rfl | rfl | rfl <;> rfl

theorem Priority.isWord_text (p : Priority) : IsWord p.text.toList := by
  rw [text, natText, String.toList_ofList]
  exact isWord_numeral p.value

namespace Date

theorem month_le (d : Date) : d.month ≤ 12 := by
  have hpos : 1 ≤ daysInMonth d.year d.month := Nat.le_trans d.day_pos d.day_le
  unfold daysInMonth at hpos
  split at hpos <;> omega

theorem day_lt (d : Date) : d.day < 100 := by
  have hle : daysInMonth d.year d.month ≤ 31 := by
    unfold daysInMonth
    split <;> (try split) <;> omega
  have := d.day_le
  omega

theorem numbers?_chars (d : Date) : numbers? d.chars = some (d.year, d.month, d.day) := by
  have hyear : numeralValue (fixedNumeral 4 d.year) = d.year :=
    numeralValue_fixedNumeral (Nat.lt_of_le_of_lt d.year_le (by decide))
  have hmonth : numeralValue (fixedNumeral 2 d.month) = d.month :=
    numeralValue_fixedNumeral (Nat.lt_of_le_of_lt d.month_le (by decide))
  have hday : numeralValue (fixedNumeral 2 d.day) = d.day :=
    numeralValue_fixedNumeral d.day_lt
  -- with its digits written out, each number stands where it is looked for
  have hdigit : ∀ n, (digitChar (n % 10)).isDigit = true :=
    fun n => (digitChar_spec (Nat.mod_lt n (by decide))).1
  have hfour : ∀ n, fixedNumeral 4 n = [digitChar (n / 10 / 10 / 10 % 10),
      digitChar (n / 10 / 10 % 10), digitChar (n / 10 % 10), digitChar (n % 10)] := fun _ => rfl
  have htwo : ∀ n, fixedNumeral 2 n = [digitChar (n / 10 % 10), digitChar (n % 10)] :=
    fun _ => rfl
  rw [hfour] at hyear
  rw [htwo] at hmonth hday
  unfold chars
  rw [hfour, htwo, htwo]
  simp only [List.cons_append, List.nil_append, numbers?, hyear, hmonth, hday]
  simp [hdigit]

/-- **A date is read back from its text.** -/
theorem read_text (d : Date) : parse d.text = .ok d := by
  have hday : ofNumbers? d.year d.month d.day = some d := by
    rw [ofNumbers?, dif_pos ⟨d.year_le, d.day_pos, d.day_le⟩]
  rw [parse, text, String.toList_ofList, numbers?_chars]
  simp only [hday]

theorem isDigit_or_dash {d : Date} {c : Char} (h : c ∈ d.chars) : c.isDigit = true ∨ c = '-' := by
  simp only [chars, List.mem_append, List.mem_cons] at h
  rcases h with (h | rfl | h) | rfl | h
  · exact .inl (isDigit_of_mem_fixedNumeral h)
  · exact .inr rfl
  · exact .inl (isDigit_of_mem_fixedNumeral h)
  · exact .inr rfl
  · exact .inl (isDigit_of_mem_fixedNumeral h)

theorem isWord_text (d : Date) : IsWord d.text.toList := by
  rw [text, String.toList_ofList]
  refine ⟨by simp [chars], fun c hc => ?_⟩
  rcases isDigit_or_dash hc with hdigit | rfl
  · exact (solid_of_isDigit hdigit).1
  · decide

end Date

namespace Declared

variable {α : Type}

/-- What is declared is read back, where values are and none of them reads `none`. -/
theorem read_text {read : String → Except Reason α} {write : α → String}
    (hread : ∀ a, read (write a) = .ok a)
    (hnone : ∀ a, fold (write a).toList ≠ noneWord.toList) {d : Declared α} {s : String}
    (h : d.text? write = some s) : parse read s = .ok d := by
  cases d with
  | unset => cases h
  | cleared =>
    cases h
    rw [parse, if_pos (by decide)]
  | value a =>
    cases h
    rw [parse, if_neg (hnone a), hread]
    rfl

/-- A text that folds to `none` begins with a letter. -/
theorem ne_noneWord_of_head {s : String} {c : Char} (h : s.toList.head? = some c)
    (hc : c.toLower ≠ 'n') : fold s.toList ≠ noneWord.toList := by
  intro heq
  have hhead := congrArg List.head? heq
  rw [fold, List.head?_map, h] at hhead
  exact hc (Option.some.inj hhead)

theorem toLower_of_isDigit {c : Char} (h : c.isDigit = true) : c.toLower ≠ 'n' := by
  intro hn
  have hletter : c = 'n' ∨ c = 'N' := (toLower_eq_iff rfl (by decide)).mp hn
  rcases hletter with rfl | rfl <;> exact absurd h (by decide)

theorem read_priority {d : Declared Priority} {s : String} (h : d.text? Priority.text = some s) :
    parse Priority.parse s = .ok d := by
  refine read_text Priority.read_text (fun p => ?_) h
  obtain ⟨c, cs, hcs⟩ := List.exists_cons_of_ne_nil (numeral_ne_nil p.value)
  have hdigit : c.isDigit = true := isDigit_of_mem_numeral (hcs ▸ List.mem_cons_self)
  refine ne_noneWord_of_head (c := c) ?_ (toLower_of_isDigit hdigit)
  rw [Priority.text, natText, String.toList_ofList, hcs]
  rfl

theorem read_deadline {d : Declared Date} {s : String} (h : d.text? Date.text = some s) :
    parse Date.parse s = .ok d := by
  refine read_text Date.read_text (fun d => ?_) h
  have hdigit := (digitChar_spec (Nat.mod_lt (d.year / 10 / 10 / 10) (show 10 > 0 by decide))).1
  refine ne_noneWord_of_head (c := digitChar (d.year / 10 / 10 / 10 % 10)) ?_
    (toLower_of_isDigit hdigit)
  rw [Date.text, String.toList_ofList]
  rfl

/-- What is written for a declaration is a word, where values are written as words. -/
theorem isWord_text {write : α → String} (hwrite : ∀ a, IsWord (write a).toList)
    {d : Declared α} {s : String} (h : d.text? write = some s) : IsWord s.toList := by
  cases d with
  | unset => cases h
  | cleared =>
    cases h
    exact isWord_of_all rfl
  | value a =>
    cases h
    exact hwrite a

end Declared

/-! ## Dependencies -/

/-- Identifiers with a blank between them, as characters. -/
theorem toList_joinIds (ids : List TaskId) :
    (" ".intercalate (ids.map TaskId.text)).toList = [' '].intercalate (ids.map TaskId.chars) := by
  rw [String.toList_intercalate, List.map_map]
  congr 1
  refine List.map_congr_left fun id _ => ?_
  exact String.toList_ofList

theorem isWord_of_mem_chars (ids : List TaskId) : ∀ w ∈ ids.map TaskId.chars, IsWord w := by
  intro w hw
  obtain ⟨id, -, rfl⟩ := List.mem_map.mp hw
  exact id.isWord_chars

/-- **Identifiers with a blank between them are read back.** -/
theorem Field.readIds_joinIds (ids : List TaskId) :
    readIds (" ".intercalate (ids.map TaskId.text)) = .ok ids := by
  have hword := isWord_of_mem_chars ids
  unfold readIds
  rw [toList_joinIds, words_intercalate hword]
  induction ids with
  | nil => rfl
  | cons id ids ih =>
    have hids := ih fun w hw => hword w (List.mem_cons_of_mem _ hw)
    rw [List.map_cons, List.mapM_cons, hids,
      show TaskId.parse (String.ofList id.chars) = .ok id from id.read_text]
    rfl

end TaskOutline
