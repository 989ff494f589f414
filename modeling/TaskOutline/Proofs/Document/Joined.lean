import TaskOutline.Proofs.Document.Fences
import TaskOutline.Proofs.Document.Reports

/-! # Texts put together

A text that ends with its last line, and whose fences come in pairs, says the same
whatever follows it, as long as that begins with a fence: no section of either reaches
into the other.  So reading the two together gives what reading them apart gives, with
the second moved down by the lines of the first (`readDocument_append`).
-/
namespace TaskOutline

/-- A text of whole sections: it ends with its last line, and its fences come in pairs. -/
structure Whole (text : String) : Prop where
  closed : Text.Closed text.toList
  paired : (Layout.fences (Text.lines text.toList)).length % 2 = 0

/-- The text is empty, or its first line is a fence. -/
def BeginsWithFence (text : String) : Prop :=
  ∀ l, (Text.lines text.toList).head? = some l → isFence l = true

/-- Texts of whole sections, one after the other, are a text of whole sections. -/
theorem Whole.append {x y : String} (hx : Whole x) (hy : Whole y) : Whole (x ++ y) where
  closed := by
    rw [String.toList_append]
    exact Text.closed_append hx.closed hy.closed
  paired := by
    have hpairedX := hx.paired
    have hpairedY := hy.paired
    rw [Layout.length_fences] at *
    rw [String.toList_append, Text.lines_append hx.closed, List.countP_append]
    omega

namespace Layout

variable {ls more : List (List Char)}

theorem untilFence_of_head (h : ∀ l, ls.head? = some l → isFence l = true) :
    untilFence ls = [] := by
  cases ls with
  | nil => rfl
  | cons l rest => exact List.takeWhile_cons_of_neg (by simp [h l rfl])

/-- Lines with all fences in pairs are laid out by themselves, and so are the lines
after them if these begin with a fence. -/
theorem outside_join (n : Nat) (hpaired : (fences ls).length % 2 = 0)
    (hmore : ∀ l, more.head? = some l → isFence l = true) :
    outside n (ls ++ more) = ⟨(outside n ls).lead,
      (outside n ls).sections ++ (outside (n + ls.length) more).sections,
      (outside (n + ls.length) more).unterminated⟩ := by
  induction ls using fences_induction generalizing n with
  | plain ls hplain =>
    rw [outside_append n hplain, outside_plain n hplain, lead_outside, untilFence_of_head hmore,
      List.append_nil, List.nil_append]
  | unpaired lead opening tail hlead hopening htail =>
    rw [fences_append_cons hlead hopening, fences_plain htail] at hpaired
    cases hpaired
  | paired lead opening front closing rest hlead hopening hfront hclosing ih =>
    have hrest : (fences rest).length % 2 = 0 := by
      rw [length_fences_paired hlead hopening hfront hclosing] at hpaired
      omega
    have hjoin := ih (n + (lead.length + front.length + 2)) hrest
    -- the notes of the first section end where they did, before or at the end of `rest`
    have hnotes : untilFence (rest ++ more) = untilFence rest := by
      rw [← lead_outside (n + (lead.length + front.length + 2)), hjoin, lead_outside]
    have hline : n + (lead.length + front.length + 2) + rest.length =
        n + (lead ++ (opening :: front ++ closing :: rest)).length := by
      simp only [List.length_append, List.length_cons]
      omega
    rw [show lead ++ (opening :: front ++ closing :: rest) ++ more =
        lead ++ (opening :: front ++ closing :: (rest ++ more)) by simp,
      outside_paired n hlead hopening hfront hclosing,
      outside_paired n hlead hopening hfront hclosing, hjoin, hnotes, hline]
    rfl

/-- Lines that begin further down are laid out further down. -/
theorem outside_move (k : Nat) (ls : List (List Char)) :
    outside (1 + k) ls = ⟨(outside 1 ls).lead, (outside 1 ls).sections.map (Section.move k),
      (outside 1 ls).unterminated.map (· + k)⟩ := by
  rw [Nat.add_comm, outside_eq k, outside_eq 0]
  simp only [Section.move_zero, Nat.add_zero, Option.map_id_fun', id_eq, List.map_map]
  rfl

/-- The layout of two texts, one after the other. -/
theorem ofText_append {x y : String} (hx : Whole x) (hy : BeginsWithFence y) :
    ofText (x ++ y) = ⟨(ofText x).lead,
      (ofText x).sections ++
        (ofText y).sections.map (Section.move (Text.lines x.toList).length),
      (ofText y).unterminated.map (· + (Text.lines x.toList).length)⟩ := by
  unfold ofText
  rw [String.toList_append, Text.lines_append hx.closed, outside_join 1 hx.paired hy, outside_move]

theorem unterminated_of_whole {x : String} (hx : Whole x) : (ofText x).unterminated = none := by
  unfold ofText
  rw [outside_eq 0, unpaired?, if_neg (by rw [hx.paired]; decide)]
  rfl

theorem lead_of_beginsWithFence {y : String} (hy : BeginsWithFence y) : (ofText y).lead = [] := by
  unfold ofText
  rw [lead_outside, untilFence_of_head hy]

end Layout

/-- Two results, one after the other. -/
instance {α : Type} : Append (Logged (List α)) where
  append x y := ⟨x.value ++ y.value, x.log ++ y.log⟩

namespace Logged

variable {α : Type} (x y : Logged (List α))

@[simp] theorem value_append : (x ++ y).value = x.value ++ y.value := rfl

@[simp] theorem log_append : (x ++ y).log = x.log ++ y.log := rfl

end Logged

/-- **Two texts are read one after the other**, where neither reaches into the other. -/
theorem readDocument_append (origin : String) {x y : String} (hx : Whole x)
    (hy : BeginsWithFence y) :
    readDocument origin (x ++ y) = readDocument origin x ++
      (readDocument origin y).relocate (Location.move origin (Text.lines x.toList).length)
        (List.map (Block.relocate (Location.move origin (Text.lines x.toList).length))) := by
  generalize hk : (Text.lines x.toList).length = k
  have hlayout := Layout.ofText_append hx hy
  rw [hk] at hlayout
  have hmoved := readSections_move origin origin k (Layout.ofText y).sections
  ext1
  · have hvalue : ((Layout.ofText y).sections.map (Section.move k)).filterMap
        (fun s => (s.read origin).value) =
        ((Layout.ofText y).sections.filterMap fun s => (s.read origin).value).map
          (Block.relocate (Location.move origin k)) := by
      rw [← value_readSections, hmoved, ← value_readSections]
      rfl
    rw [value_readDocument, hlayout, List.filterMap_append, hvalue, ← value_readDocument,
      ← value_readDocument]
    rfl
  · have hlog : ((Layout.ofText y).sections.map (Section.move k)).flatMap
        (fun s => (s.read origin).log) =
        ((Layout.ofText y).sections.flatMap fun s => (s.read origin).log).map
          (Diagnostic.relocate (Location.move origin k)) := by
      rw [← log_readSections, hmoved, ← log_readSections]
      rfl
    have hend : ((Layout.ofText y).unterminated.map (· + k)).toList.map (unterminatedAt origin) =
        ((Layout.ofText y).unterminated.toList.map (unterminatedAt origin)).map
          (Diagnostic.relocate (Location.move origin k)) := by
      cases (Layout.ofText y).unterminated <;> rfl
    have hx' := Layout.unterminated_of_whole hx
    have hy' := Layout.lead_of_beginsWithFence hy
    rw [Logged.log_append, log_readDocument origin x, hx', log_readDocument, hlayout]
    show _ ++ List.flatMap _ (_ ++ _) ++ _ = _ ++ (readDocument origin y).log.map _
    rw [log_readDocument, hy', List.flatMap_append, hlog, hend]
    simp [firstText?]

end TaskOutline
