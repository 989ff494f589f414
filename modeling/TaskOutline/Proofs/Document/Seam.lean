import TaskOutline.Proofs.Document.Joined
import TaskOutline.Proofs.Document.Places

/-! # Where one text ends and the next begins

What is read of two texts in a row is what is read of each, with the locations of the
second further down.  `Joined` has this for a change of locations that also names the
text; here the locations are only moved (`Location.down`), which comes to the same since
all that is read of a text is located in it.
-/
namespace TaskOutline

/-- The location that many lines further down, in the same text. -/
def Location.down (k : Nat) (l : Location) : Location := { l with line := l.line + k }

theorem Location.move_eq_down {origin : String} {l : Location} (h : l.origin = origin) (k : Nat) :
    l.move origin k = l.down k := by
  subst h
  rfl

/-! ## Moving what is read -/

theorem Block.relocate_move {origin : String} {block : Block} (h : block.location.origin = origin)
    (k : Nat) : block.relocate (Location.move origin k) = block.relocate (Location.down k) := by
  cases block with
  | task record =>
    have hmove : record.location.move origin k = record.location.down k :=
      Location.move_eq_down h k
    rw [Block.relocate, Block.relocate, Record.relocate, Record.relocate, hmove]
  | inclusion files =>
    have hmove : files.location.move origin k = files.location.down k :=
      Location.move_eq_down h k
    rw [Block.relocate, Block.relocate, Inclusion.relocate, Inclusion.relocate, hmove]

theorem Diagnostic.relocate_move {origin text : String} {d : Diagnostic}
    (h : d.StandsIn origin text) (k : Nat) :
    d.relocate (Location.move origin k) = d.relocate (Location.down k) := by
  obtain ⟨l, hl, horigin, -⟩ := h
  rw [Diagnostic.relocate, Diagnostic.relocate, hl, Option.map_some, Option.map_some,
    Location.move_eq_down horigin]

/-- All that is read of a text, moved down by that many lines. -/
theorem readDocument_relocate_move (origin text : String) (k : Nat) :
    (readDocument origin text).relocate (Location.move origin k)
        (List.map (Block.relocate (Location.move origin k))) =
      (readDocument origin text).relocate (Location.down k)
        (List.map (Block.relocate (Location.down k))) := by
  ext1
  · exact List.map_congr_left fun block h => Block.relocate_move (Block.isFenceOf h).1 k
  · exact List.map_congr_left fun d h =>
      Diagnostic.relocate_move (readDocument_liesIn origin text d h) k

/-! ## Texts that may follow one another -/

theorem whole_of_even {text : String} (hend : text = "" ∨ text.toList.getLast? = some '\n')
    (heven : (Text.lines text.toList).countP (fun l => Text.trim l = ['-', '-', '-']) % 2 = 0) :
    Whole text where
  closed := hend.imp_left fun h => by simp [h]
  paired := by
    have hcount : (Text.lines text.toList).countP isFence =
        (Text.lines text.toList).countP fun l => Text.trim l = ['-', '-', '-'] :=
      List.countP_congr fun l _ => by rw [isFence_iff, decide_eq_true_eq]
    rw [Layout.length_fences, hcount, heven]

theorem beginsWithFence_of_head {text : String} (h : text = "" ∨
    ∃ l, (Text.lines text.toList).head? = some l ∧ Text.trim l = ['-', '-', '-']) :
    BeginsWithFence text := by
  rintro l hl
  rcases h with rfl | ⟨first, hfirst, htrim⟩
  · cases hl
  · rw [hfirst] at hl
    cases hl
    exact isFence_iff.mpr htrim

/-- **Reading takes texts in a row to results in a row.**  Let a text be empty or end in
a newline, with an even number of lines that read `---`, and let the text after it be
empty or begin with such a line.  Then the blocks of both are those of the first and
those of the second, and so are the reports; nothing of either changes but the lines that
are named in the second part, which are further down by the lines of the first text. -/
theorem readDocument_seam (origin : String) {first second : String}
    (hend : first = "" ∨ first.toList.getLast? = some '\n')
    (heven : (Text.lines first.toList).countP (fun l => Text.trim l = ['-', '-', '-']) % 2 = 0)
    (hbegin : second = "" ∨
      ∃ l, (Text.lines second.toList).head? = some l ∧ Text.trim l = ['-', '-', '-']) :
    let k := (Text.lines first.toList).length
    (readDocument origin (first ++ second)).value =
        (readDocument origin first).value ++
          (readDocument origin second).value.map (Block.relocate (Location.down k)) ∧
      (readDocument origin (first ++ second)).log =
        (readDocument origin first).log ++
          (readDocument origin second).log.map (Diagnostic.relocate (Location.down k)) := by
  intro k
  have hjoined := readDocument_append origin (whole_of_even hend heven)
    (beginsWithFence_of_head hbegin)
  rw [readDocument_relocate_move] at hjoined
  rw [hjoined]
  exact ⟨rfl, rfl⟩

/-- A text with a task, between a line that belongs to nothing and notes. -/
def openingPart : String := "Head\n---\ntask 1\n\n---\nNotes\n"

/-- A text that includes a file and breaks off in its second block. -/
def closingPart : String := " ---\ninclude b.md\n---\nMore\n---\ntask 2"

/-- What is read of the second part stands six lines further down. -/
theorem readDocument_seam_parts :
    openingPart.toList.getLast? = some '\n' ∧
      (Text.lines openingPart.toList).countP (fun l => Text.trim l = ['-', '-', '-']) % 2 = 0 ∧
      (∃ l, (Text.lines closingPart.toList).head? = some l ∧ Text.trim l = ['-', '-', '-']) ∧
      (readDocument "a.md" (openingPart ++ closingPart)).value =
        [.task { Record.bare ⟨[1], by decide, by decide⟩ ⟨"a.md", 2⟩ with notes := "Notes\n" },
          .inclusion ⟨["b.md"], ⟨"a.md", 7⟩⟩] ∧
      (readDocument "a.md" (openingPart ++ closingPart)).log =
        [preambleAt "a.md" 1, ⟨.warning, some ⟨"a.md", 4⟩, .ignored .blankLine⟩,
          ⟨.warning, some ⟨"a.md", 7⟩, .ignored .afterInclude⟩, unterminatedAt "a.md" 11] := by
  have hend : openingPart.toList.getLast? = some '\n' := rfl
  have heven : (Text.lines openingPart.toList).countP
      (fun l => Text.trim l = ['-', '-', '-']) % 2 = 0 := rfl
  have hbegin : ∃ l, (Text.lines closingPart.toList).head? = some l ∧
      Text.trim l = ['-', '-', '-'] := ⟨[' ', '-', '-', '-', '\n'], rfl, rfl⟩
  obtain ⟨hvalue, hlog⟩ := readDocument_seam "a.md" (.inr hend) heven (.inr hbegin)
  refine ⟨hend, heven, hbegin, ?_, ?_⟩
  · rw [hvalue]
    rfl
  · rw [hlog]
    rfl

end TaskOutline
