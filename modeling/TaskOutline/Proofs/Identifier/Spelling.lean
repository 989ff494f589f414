import Mathlib.Data.List.Forall2
import TaskOutline.Proofs.Document.Meaning
import TaskOutline.Proofs.Path.Parent
import TaskOutline.Proofs.Property.Values
import TaskOutline.Proofs.Text.Numerals

/-! # How identifiers are spelled

An identifier is spelled as parts with single dots between them, each of them a run of
digits that writes a positive number of 32 bits.  Reading finds the numbers, and where
some part is no such run, what is wrong with the leftmost one (`TaskId.parse_exact`).

Parts are read one by one from the left, so that both outcomes are told by one induction
each over the parts: all of them are read (`readSegments_eq_ok_iff`), or there is a first
one that is refused (`readSegments_eq_error_iff`).
-/
namespace TaskOutline.TaskId

open Text

/-! ## Parts -/

/-- The text is these parts with single dots between them. -/
structure Dotted (cs : List Char) (parts : List (List Char)) : Prop where
  ne_nil : parts ≠ []
  dotless : ∀ part ∈ parts, '.' ∉ part
  joined : ['.'].intercalate parts = cs

/-- The part is a run of digits that writes this number, and the number can be a segment. -/
structure IsPart (part : List Char) (n : Nat) : Prop where
  writes : Writes part n
  pos : 1 ≤ n
  le : n ≤ 4294967295

/-- What is wrong with a part that is no segment. -/
inductive Refused (part : List Char) : IdError → Prop
  | invalid : (part = [] ∨ ∃ c ∈ part, c.isDigit = false) →
      Refused part (.invalidSegment (String.ofList part))
  | zero : Writes part 0 → Refused part (.zeroSegment (String.ofList part))
  | tooLarge {n : Nat} : Writes part n → 4294967295 < n →
      Refused part (.segmentTooLarge (String.ofList part))

/-- Cutting at the dots finds the parts. -/
theorem dotted_iff {cs : List Char} {parts : List (List Char)} :
    Dotted cs parts ↔ cs.splitOn '.' = parts := by
  constructor
  · rintro ⟨hne, hdotless, rfl⟩
    exact List.splitOn_intercalate '.' hdotless hne
  · rintro rfl
    exact ⟨List.splitOn_ne_nil _ _, not_mem_of_mem_splitOn, List.intercalate_splitOn '.'⟩

section Part

variable {part : List Char}

/-- A part is a segment, or something is wrong with it. -/
theorem isPart_or_refused (part : List Char) : (∃ n, IsPart part n) ∨ ∃ e, Refused part e := by
  cases hread : readNat? part with
  | none => exact .inr ⟨_, .invalid (readNat?_eq_none_iff.mp hread)⟩
  | some n =>
    have hwrites : Writes part n := readNat?_eq_some_iff.mp hread
    by_cases hzero : n = 0
    · subst hzero
      exact .inr ⟨_, .zero hwrites⟩
    · by_cases hle : n ≤ 4294967295
      · exact .inl ⟨n, hwrites, by omega, hle⟩
      · exact .inr ⟨_, .tooLarge hwrites (by omega)⟩

theorem IsPart.readSegment_eq {n : Nat} (h : IsPart part n) :
    readSegment part = .ok ⟨n, h.pos, h.le⟩ := by
  have hpos : n ≠ 0 := Nat.ne_of_gt h.pos
  have hle : n ≤ maxSegment := h.le
  unfold readSegment
  rw [readNat?_eq_some_iff.mpr h.writes]
  simp [hpos, hle]

theorem Refused.readSegment_eq {e : IdError} (h : Refused part e) :
    readSegment part = .error e := by
  unfold readSegment
  cases h with
  | invalid hpart => rw [readNat?_eq_none_iff.mpr hpart]
  | zero hwrites =>
    rw [readNat?_eq_some_iff.mpr hwrites]
    rfl
  | @tooLarge n hwrites hlt =>
    have hzero : n ≠ 0 := by omega
    have hlarge : ¬ n ≤ maxSegment := by
      show ¬ n ≤ 4294967295
      omega
    rw [readNat?_eq_some_iff.mpr hwrites]
    simp [hzero, hlarge]

theorem readSegment_eq_ok_iff {n : Nat} :
    (∃ m, readSegment part = .ok m ∧ m.val = n) ↔ IsPart part n := by
  constructor
  · rintro ⟨m, hread, rfl⟩
    rcases isPart_or_refused part with ⟨n, hpart⟩ | ⟨e, hrefused⟩
    · obtain rfl := Except.ok.inj (hread.symm.trans hpart.readSegment_eq)
      exact hpart
    · rw [hrefused.readSegment_eq] at hread
      cases hread
  · intro h
    exact ⟨_, h.readSegment_eq, rfl⟩

theorem readSegment_eq_error_iff {e : IdError} : readSegment part = .error e ↔ Refused part e := by
  constructor
  · intro hread
    rcases isPart_or_refused part with ⟨n, hpart⟩ | ⟨e', hrefused⟩
    · rw [hpart.readSegment_eq] at hread
      cases hread
    · obtain rfl := Except.error.inj (hread.symm.trans hrefused.readSegment_eq)
      exact hrefused
  · exact Refused.readSegment_eq

end Part

/-! ## Parts in a row -/

section Parts

variable {parts : List (List Char)}

/-- **Parts are read as numbers** when each of them is one. -/
theorem readSegments_eq_ok_iff {ns : List Nat} :
    (∃ r, readSegments parts = .ok r ∧ r.val = ns) ↔ List.Forall₂ IsPart parts ns := by
  induction parts generalizing ns with
  | nil =>
    rw [List.forall₂_nil_left_iff]
    exact ⟨fun ⟨r, hread, hr⟩ => hr ▸ congrArg Subtype.val (Except.ok.inj hread).symm,
      fun h => ⟨_, rfl, h.symm⟩⟩
  | cons part parts ih =>
    constructor
    · rintro ⟨r, hread, rfl⟩
      obtain ⟨n, hn, hrest⟩ := Except.bind_eq_ok hread
      obtain ⟨ns, hns, hcons⟩ := Except.bind_eq_ok hrest
      cases hcons
      exact .cons (readSegment_eq_ok_iff.mp ⟨n, hn, rfl⟩) (ih.mp ⟨ns, hns, rfl⟩)
    · rintro (_ | @⟨_, n, _, ns, hpart, hparts⟩)
      obtain ⟨r, hr, rfl⟩ := ih.mpr hparts
      refine ⟨⟨n :: r.val, List.forall_mem_cons.mpr ⟨⟨hpart.pos, hpart.le⟩, r.property⟩⟩, ?_, rfl⟩
      rw [readSegments, hpart.readSegment_eq, hr]
      rfl

/-- **Parts are refused for the first that is no segment.** -/
theorem readSegments_eq_error_iff {e : IdError} :
    readSegments parts = .error e ↔ ∃ before bad after, parts = before ++ bad :: after ∧
      (∀ part ∈ before, ∃ n, IsPart part n) ∧ Refused bad e := by
  induction parts with
  | nil => simp [readSegments]
  | cons part parts ih =>
    constructor
    · intro hread
      rcases Except.bind_eq_error hread with hfirst | ⟨n, hn, hrest⟩
      · exact ⟨[], part, parts, rfl, by simp, readSegment_eq_error_iff.mp hfirst⟩
      · rcases Except.bind_eq_error hrest with hrest | ⟨ns, -, hok⟩
        · obtain ⟨before, bad, after, rfl, hbefore, hbad⟩ := ih.mp hrest
          have hpart : IsPart part n := readSegment_eq_ok_iff.mp ⟨n, hn, rfl⟩
          exact ⟨part :: before, bad, after, rfl,
            List.forall_mem_cons.mpr ⟨⟨n, hpart⟩, hbefore⟩, hbad⟩
        · cases hok
    · rintro ⟨_ | ⟨first, before⟩, bad, after, hparts, hbefore, hbad⟩
      · obtain ⟨rfl, rfl⟩ := List.cons.inj hparts
        rw [readSegments, hbad.readSegment_eq]
        rfl
      · obtain ⟨rfl, rfl⟩ := List.cons.inj hparts
        obtain ⟨⟨n, hn⟩, hbefore⟩ := List.forall_mem_cons.mp hbefore
        rw [readSegments, hn.readSegment_eq, ih.mpr ⟨before, bad, after, rfl, hbefore, hbad⟩]
        rfl

end Parts

/-! ## Identifiers -/

/-- An identifier is read part by part. -/
theorem map_segments_readTrimmed {cs : List Char} (h : cs ≠ []) :
    (readTrimmed cs).map segments = (readSegments (cs.splitOn '.')).map Subtype.val := by
  unfold readTrimmed
  rw [if_neg h]
  cases hsplit : cs.splitOn '.' with
  | nil => exact absurd hsplit (List.splitOn_ne_nil _ _)
  | cons part parts =>
    dsimp only [readSegments]
    cases readSegment part with
    | error e => rfl
    | ok n => cases readSegments parts <;> rfl

theorem Dotted.ne_nil_of_isPart {cs : List Char} {parts : List (List Char)} {ns : List Nat}
    (h : Dotted cs parts) (hparts : List.Forall₂ IsPart parts ns) : cs ≠ [] := by
  rintro rfl
  obtain rfl : [[]] = parts := dotted_iff.mp h
  cases hparts with
  | cons hpart _ => exact hpart.writes.ne_nil rfl

theorem parse_of_blank {s : String} (h : trim s.toList = []) : parse s = .error .empty := by
  unfold parse readTrimmed
  rw [if_pos h]

theorem parse_eq_ok_iff {s : String} {ns : List Nat} :
    (∃ id, parse s = .ok id ∧ id.segments = ns) ↔
      ∃ parts, Dotted (trim s.toList) parts ∧ List.Forall₂ IsPart parts ns := by
  simp only [dotted_iff, exists_eq_left']
  by_cases hblank : trim s.toList = []
  · rw [parse_of_blank hblank, hblank]
    constructor
    · rintro ⟨id, hread, -⟩
      cases hread
    · intro hparts
      exact absurd rfl ((dotted_iff.mpr rfl).ne_nil_of_isPart hparts)
  · rw [← readSegments_eq_ok_iff]
    constructor
    · rintro ⟨id, hread, rfl⟩
      have hmap := map_segments_readTrimmed hblank
      rw [show readTrimmed (trim s.toList) = .ok id from hread] at hmap
      exact Except.map_eq_ok hmap.symm
    · rintro ⟨r, hread, rfl⟩
      have hmap := map_segments_readTrimmed hblank
      rw [hread] at hmap
      exact Except.map_eq_ok hmap

theorem parse_eq_error_iff {s : String} {e : IdError} (h : trim s.toList ≠ []) :
    parse s = .error e ↔
      ∃ before bad after, Dotted (trim s.toList) (before ++ bad :: after) ∧
        (∀ part ∈ before, ∃ n, IsPart part n) ∧ Refused bad e := by
  have hmap := map_segments_readTrimmed h
  have hparts : parse s = .error e ↔ readSegments ((trim s.toList).splitOn '.') = .error e := by
    constructor
    · intro hread
      rw [show readTrimmed (trim s.toList) = .error e from hread] at hmap
      exact Except.map_eq_error hmap.symm
    · intro hread
      rw [hread] at hmap
      exact Except.map_eq_error hmap
  rw [hparts, readSegments_eq_error_iff]
  simp only [dotted_iff]

/-- Identifiers with the same text are the same. -/
theorem text_injective : Function.Injective text := by
  intro a b h
  have hread : Except.ok a = (Except.ok b : Except IdError TaskId) := by
    rw [← a.read_text, h, b.read_text]
  exact Except.ok.inj hread

/-- **Identifiers are read as they are spelled.**  A text is read as the numbers `ns` when
it is, but for blanks around it, a row of parts that write them.  Any other text is refused,
for being empty or for the leftmost part that is no segment.  The text of an identifier is
read as that identifier, and no two identifiers have the same text. -/
theorem parse_exact :
    (∀ (s : String) (ns : List Nat), (∃ id, parse s = .ok id ∧ id.segments = ns) ↔
      ∃ parts, Dotted (trim s.toList) parts ∧ List.Forall₂ IsPart parts ns) ∧
    (∀ (s : String) (e : IdError), parse s = .error e ↔
      (trim s.toList = [] ∧ e = .empty) ∨
        trim s.toList ≠ [] ∧ ∃ before bad after,
          Dotted (trim s.toList) (before ++ bad :: after) ∧
            (∀ part ∈ before, ∃ n, IsPart part n) ∧ Refused bad e) ∧
    (∀ id : TaskId, parse id.text = .ok id) ∧ Function.Injective text := by
  refine ⟨fun s ns => parse_eq_ok_iff, fun s e => ?_, read_text, text_injective⟩
  by_cases hblank : trim s.toList = []
  · rw [parse_of_blank hblank]
    simp [hblank, eq_comm]
  · rw [parse_eq_error_iff hblank]
    simp [hblank]

/-- The leftmost bad part is named, as it is written. -/
example : parse " 1.00.x" = .error (.zeroSegment "00") := by rfl

end TaskOutline.TaskId
