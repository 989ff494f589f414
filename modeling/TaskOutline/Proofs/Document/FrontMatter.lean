import TaskOutline.Proofs.Document.Joined

/-! # Front matters and where they stand

A front matter is a passage of a text: the lines after an opening fence, up to the next
fence or to the end of the text (`IsFrontMatter`).  The passages that are front matters in
this sense are those that a layout has, the fronts of its sections and the one that is left
open (`isFrontMatter_iff`).

The lines around a front matter are laid out without regard to the lines in it
(`Layout.outside_closed`, `Layout.outside_unclosed`), so that other lines can be put in
their place.
-/
namespace TaskOutline

open Text

/-! ## Front matters -/

/-- The lines are a front matter of the text. -/
structure IsFrontMatter (text : String) (n : Nat) (front : List (List Char)) : Prop where
  /-- Each of them has its newline. Only where no fence follows the last one can lack it. -/
  ends : ∀ l ∈ front, l.getLast? = some '\n'
  /-- None of them is a fence. -/
  plain : ∀ l ∈ front, isFence l = false
  /-- Line `n` before them is an opening fence, as the fences before it come in pairs; and
  what follows them begins with a fence, or is the end of the text. -/
  placed : ∃ before opening after, lines text.toList = before ++ opening :: (front ++ after) ∧
    n = before.length + 1 ∧ before.countP isFence % 2 = 0 ∧ isFence opening = true ∧
      ∀ l, after.head? = some l → isFence l = true

/-- The text with other lines in place of the `k` lines after line `n`. -/
def replaceLines (text : String) (n k : Nat) (new : List (List Char)) : String :=
  String.ofList ((lines text.toList).take n ++ (new ++ (lines text.toList).drop (n + k))).flatten

namespace Layout

variable {before front rest : List (List Char)} {opening closing : List Char}

theorem countP_plain {ls : List (List Char)} (h : ∀ l ∈ ls, isFence l = false) :
    ls.countP isFence = 0 :=
  List.countP_eq_zero.mpr (by simpa using h)

/-- Two more fences come before. -/
theorem countP_paired {lead : List (List Char)} (hlead : ∀ l ∈ lead, isFence l = false)
    (hopening : isFence opening = true) (hfront : ∀ l ∈ front, isFence l = false)
    (hclosing : isFence closing = true) (rest : List (List Char)) :
    (lead ++ (opening :: front ++ closing :: rest)).countP isFence = rest.countP isFence + 2 := by
  rw [← length_fences, length_fences_paired hlead hopening hfront hclosing, length_fences]

/-- Sections open on lines of their text. -/
theorem line_of_mem_outside (n : Nat) (ls : List (List Char)) :
    ∀ s ∈ (outside n ls).sections, n ≤ s.line ∧ s.line < n + ls.length := by
  induction ls using fences_induction generalizing n with
  | plain ls hplain =>
    rw [outside_plain n hplain]
    exact List.forall_mem_nil _
  | unpaired lead opening tail hlead hopening htail =>
    rw [outside_unpaired n hlead hopening htail]
    exact List.forall_mem_nil _
  | paired lead opening front closing rest hlead hopening hfront hclosing ih =>
    have hlength : (lead ++ (opening :: front ++ closing :: rest)).length =
        lead.length + front.length + 2 + rest.length := by
      simp only [List.length_append, List.length_cons]
      omega
    rw [outside_paired n hlead hopening hfront hclosing, hlength]
    refine List.forall_mem_cons.mpr ⟨⟨Nat.le_add_right n _, ?_⟩, fun s hs => ?_⟩
    · show n + lead.length < _
      omega
    · obtain ⟨hge, hlt⟩ := ih _ s hs
      omega

section Around

variable (heven : before.countP isFence % 2 = 0) (hopening : isFence opening = true)
  (hfront : ∀ l ∈ front, isFence l = false)

include heven hopening hfront

/-- A front matter with a fence after it is that of a section. -/
theorem outside_closed (hclosing : isFence closing = true) (rest : List (List Char)) :
    outside 1 (before ++ opening :: (front ++ closing :: rest)) =
      ⟨(outside 1 before).lead,
        (outside 1 before).sections ++ ⟨before.length + 1, front, untilFence rest⟩ ::
          (outside (before.length + front.length + 3) rest).sections,
        (outside (before.length + front.length + 3) rest).unterminated⟩ := by
  have hnext : 1 + before.length + front.length + 2 = before.length + front.length + 3 := by omega
  rw [← length_fences] at heven
  rw [outside_join 1 heven (by simpa using hopening), ← List.cons_append,
    outside_section _ hopening hfront hclosing, hnext, lead_outside (_ + _ + 3), Nat.add_comm 1]

/-- A front matter with nothing after it is left open. -/
theorem outside_unclosed :
    outside 1 (before ++ opening :: front) =
      ⟨(outside 1 before).lead, (outside 1 before).sections, some (before.length + 1)⟩ := by
  rw [← length_fences] at heven
  rw [outside_join 1 heven (by simpa using hopening),
    outside_of_open _ hopening (inside_plain _ hfront), List.append_nil, Nat.add_comm 1]

end Around

/-- Lines with a section are lines around its front matter. -/
theorem exists_around (n : Nat) (ls : List (List Char)) :
    ∀ s ∈ (outside n ls).sections, (∀ l ∈ s.front, isFence l = false) ∧
      ∃ before opening closing rest, ls = before ++ opening :: (s.front ++ closing :: rest) ∧
        s.line = n + before.length ∧ before.countP isFence % 2 = 0 ∧ isFence opening = true ∧
          isFence closing = true := by
  induction ls using fences_induction generalizing n with
  | plain ls hplain =>
    rw [outside_plain n hplain]
    exact List.forall_mem_nil _
  | unpaired lead opening tail hlead hopening htail =>
    rw [outside_unpaired n hlead hopening htail]
    exact List.forall_mem_nil _
  | paired lead opening front closing rest hlead hopening hfront hclosing ih =>
    rw [outside_paired n hlead hopening hfront hclosing]
    refine List.forall_mem_cons.mpr ⟨⟨hfront, ?_⟩, fun s hs => ?_⟩
    · refine ⟨lead, opening, closing, rest, rfl, rfl, ?_, hopening, hclosing⟩
      rw [countP_plain hlead]
    · obtain ⟨hplain, before, opening', closing', rest', rfl, hline, heven, hopening', hclosing'⟩ :=
        ih _ s hs
      refine ⟨hplain, lead ++ (opening :: front ++ closing :: before), opening', closing', rest',
        by simp, ?_, ?_, hopening', hclosing'⟩
      · simp only [List.length_append, List.length_cons]
        omega
      · rw [countP_paired hlead hopening hfront hclosing]
        omega

/-- Lines with a fence that is left over are lines around it. -/
theorem exists_unclosed (n k : Nat) (ls : List (List Char))
    (h : (outside n ls).unterminated = some k) :
    ∃ before opening tail, ls = before ++ opening :: tail ∧ k = n + before.length ∧
      before.countP isFence % 2 = 0 ∧ isFence opening = true ∧ ∀ l ∈ tail, isFence l = false := by
  induction ls using fences_induction generalizing n with
  | plain ls hplain =>
    rw [outside_plain n hplain] at h
    cases h
  | unpaired lead opening tail hlead hopening htail =>
    rw [outside_unpaired n hlead hopening htail] at h
    refine ⟨lead, opening, tail, rfl, (Option.some.inj h).symm, ?_, hopening, htail⟩
    rw [countP_plain hlead]
  | paired lead opening front closing rest hlead hopening hfront hclosing ih =>
    rw [outside_paired n hlead hopening hfront hclosing] at h
    obtain ⟨before, opening', tail, rfl, hk, heven, hopening', htail⟩ := ih _ h
    refine ⟨lead ++ (opening :: front ++ closing :: before), opening', tail, by simp, ?_, ?_,
      hopening', htail⟩
    · simp only [List.length_append, List.length_cons]
      omega
    · rw [countP_paired hlead hopening hfront hclosing]
      omega

end Layout

theorem drop_line (before rest : List (List Char)) (opening : List Char) :
    (before ++ opening :: rest).drop (before.length + 1) = rest := by
  rw [List.append_cons]
  exact List.drop_left' (List.length_append ..)

theorem take_line (before rest : List (List Char)) (opening : List Char) :
    (before ++ opening :: rest).take (before.length + 1) = before ++ [opening] := by
  rw [List.append_cons]
  exact List.take_left' (List.length_append ..)

section FrontMatter

variable {text : String} {n : Nat} {front : List (List Char)}

/-- With its lines in another order, the text has these and otherwise the lines it had. -/
theorem lines_replaceLines {before after front' : List (List Char)} {opening : List Char}
    (hlines : lines text.toList = before ++ opening :: (front ++ after))
    (hends : ∀ l ∈ front, l.getLast? = some '\n') (hperm : front'.Perm front) :
    lines (replaceLines text (before.length + 1) front.length front').toList =
      before ++ opening :: (front' ++ after) := by
  have hlined := lined_lines text.toList
  rw [hlines, List.append_cons] at hlined
  unfold replaceLines
  rw [String.toList_ofList, hlines, ← List.drop_drop, drop_line, take_line, List.drop_left,
    (hlined.reorder hends hperm).lines_flatten, ← List.append_cons]

/-- **The front matters of a text are those that its layout has**: the fronts of sections,
and the lines after a fence that is left over. -/
theorem isFrontMatter_iff : IsFrontMatter text n front ↔
    (∃ s ∈ (Layout.ofText text).sections, s.line = n ∧ s.front = front) ∨
      (Layout.ofText text).unterminated = some n ∧ (lines text.toList).drop n = front ∧
        ∀ l ∈ front, l.getLast? = some '\n' := by
  unfold Layout.ofText
  constructor
  · rintro ⟨hends, hplain, before, opening, after, hlines, rfl, heven, hopening, hafter⟩
    rw [hlines]
    cases after with
    | nil =>
      rw [List.append_nil, Layout.outside_unclosed heven hopening hplain]
      exact .inr ⟨rfl, drop_line before front opening, hends⟩
    | cons closing rest =>
      rw [Layout.outside_closed heven hopening hplain (hafter closing rfl)]
      exact .inl ⟨_, List.mem_append_right _ List.mem_cons_self, rfl, rfl⟩
  · rintro (⟨s, hs, rfl, rfl⟩ | ⟨hopen, rfl, hends⟩)
    · obtain ⟨hplain, before, opening, closing, rest, hlines, hline, heven, hopening, hclosing⟩ :=
        Layout.exists_around 1 _ s hs
      have hlined := lined_lines text.toList
      rw [hlines] at hlined
      refine ⟨?_, hplain, before, opening, closing :: rest, hlines, by omega, heven, hopening,
        by simpa using hclosing⟩
      exact Lined.getLast?_eq (hlined.of_suffix ⟨before ++ [opening], by simp⟩)
        (List.cons_ne_nil closing rest)
    · obtain ⟨before, opening, tail, hlines, rfl, heven, hopening, htail⟩ :=
        Layout.exists_unclosed 1 n _ hopen
      have hdrop : (lines text.toList).drop (1 + before.length) = tail := by
        rw [hlines, Nat.add_comm, drop_line]
      rw [hdrop] at hends ⊢
      exact ⟨hends, htail, before, opening, [], by rw [hlines, List.append_nil], Nat.add_comm _ _,
        heven, hopening, by simp⟩

end FrontMatter

end TaskOutline
