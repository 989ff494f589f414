import TaskOutline.Proofs.Document.Fences
import TaskOutline.Proofs.Document.Reports

/-! # Lines that end with a carriage return

A text may end its lines with a carriage return and a newline.  The return is a blank at
the end of a line, and reading looks at lines only after they were trimmed: so fences stay
fences, entries stay entries, and what is reported stays what it was.  Only notes are
kept as they stand, with the returns in them (`readDocument_withReturns`).
-/
namespace TaskOutline

/-! ## Texts -/

namespace Text

/-- The characters with a carriage return before each newline. -/
def addReturns (cs : List Char) : List Char :=
  cs.flatMap fun c => if c = '\n' then ['\r', '\n'] else [c]

theorem addReturns_append (cs ds : List Char) :
    addReturns (cs ++ ds) = addReturns cs ++ addReturns ds :=
  List.flatMap_append

theorem addReturns_of_not_mem {cs : List Char} (h : '\n' ∉ cs) : addReturns cs = cs := by
  induction cs with
  | nil => rfl
  | cons c cs ih =>
    obtain ⟨hc, hcs⟩ : '\n' ≠ c ∧ '\n' ∉ cs := by simpa using h
    unfold addReturns
    rw [List.flatMap_cons, if_neg hc.symm]
    exact congrArg (c :: ·) (ih hcs)

theorem addReturns_line {l : List Char} (h : '\n' ∉ l) :
    addReturns (l ++ ['\n']) = (l ++ ['\r']) ++ ['\n'] := by
  rw [addReturns_append, addReturns_of_not_mem h, List.append_assoc]
  rfl

theorem addReturns_flatten (ls : List (List Char)) :
    addReturns ls.flatten = (ls.map addReturns).flatten := by
  induction ls with
  | nil => rfl
  | cons l ls ih => rw [List.flatten_cons, addReturns_append, ih, List.map_cons, List.flatten_cons]

theorem Lined.addReturns {ls : List (List Char)} (h : Lined ls) : Lined (ls.map addReturns) := by
  induction h with
  | nil => exact .nil
  | last hne hl =>
    rw [List.map_singleton, addReturns_of_not_mem hl]
    exact .last hne hl
  | @cons l ls hl hls ih =>
    rw [List.map_cons, addReturns_line hl]
    refine .cons ?_ ih
    simpa using hl

/-- Each line has its return. -/
theorem lines_addReturns (cs : List Char) : lines (addReturns cs) = (lines cs).map addReturns := by
  have hflatten := (lined_lines cs).addReturns.lines_flatten
  rwa [← addReturns_flatten, flatten_lines] at hflatten

/-- **The return of a line goes with trimming.** -/
theorem Lined.trim_addReturns {ls : List (List Char)} (h : Lined ls) :
    ∀ l ∈ ls, trim (Text.addReturns l) = trim l := by
  have hreturn : isBlank '\r' = true := by decide
  have hnewline : isBlank '\n' = true := by decide
  induction h with
  | nil => exact List.forall_mem_nil _
  | last hne hl =>
    rw [List.forall_mem_singleton, addReturns_of_not_mem hl]
  | @cons l ls hl hls ih =>
    refine List.forall_mem_cons.mpr ⟨?_, ih⟩
    rw [addReturns_line hl, trim_concat_of_blank _ hnewline, trim_concat_of_blank _ hreturn,
      trim_concat_of_blank _ hnewline]

theorem allBlank_addReturns (cs : List Char) : allBlank (addReturns cs) = allBlank cs := by
  unfold allBlank addReturns
  rw [List.all_flatMap]
  congr 1
  funext c
  by_cases hc : c = '\n'
  · subst hc
    decide
  · rw [if_neg hc, List.all_cons, List.all_nil, Bool.and_true]

end Text

/-- The text with a carriage return before each newline. -/
def withReturns (text : String) : String :=
  String.ofList (Text.addReturns text.toList)

theorem toList_withReturns (text : String) :
    (withReturns text).toList = Text.addReturns text.toList :=
  String.toList_ofList

/-! ## Layouts -/

/-- The section with each of its lines changed. -/
def Section.mapLines (g : List Char → List Char) (s : Section) : Section :=
  { s with front := s.front.map g, notes := s.notes.map g }

namespace Layout

variable {g : List Char → List Char}

theorem plain_map {ls : List (List Char)} (hfence : ∀ l ∈ ls, isFence (g l) = isFence l)
    (hplain : ∀ l ∈ ls, isFence l = false) : ∀ l ∈ ls.map g, isFence l = false :=
  List.forall_mem_map.mpr fun l hl => (hfence l hl).trans (hplain l hl)

theorem untilFence_map {ls : List (List Char)} (hfence : ∀ l ∈ ls, isFence (g l) = isFence l) :
    untilFence (ls.map g) = (untilFence ls).map g := by
  rcases plain_or_fence ls with hplain | ⟨lead, fence, rest, rfl, hlead, hopening⟩
  · rw [untilFence_plain hplain, untilFence_plain (plain_map hfence hplain)]
  · obtain ⟨hlead', hrest'⟩ := List.forall_mem_append.mp hfence
    obtain ⟨hopening', -⟩ := List.forall_mem_cons.mp hrest'
    rw [untilFence_append hlead hopening, List.map_append, List.map_cons,
      untilFence_append (plain_map hlead' hlead) (hopening'.trans hopening)]

/-- **Lines are laid out by their fences alone**: where others stand for them of which the
same ones are fences, the layout is the same with these in it. -/
theorem outside_map (n : Nat) {ls : List (List Char)}
    (hfence : ∀ l ∈ ls, isFence (g l) = isFence l) :
    outside n (ls.map g) = ⟨(outside n ls).lead.map g,
      (outside n ls).sections.map (Section.mapLines g), (outside n ls).unterminated⟩ := by
  induction ls using fences_induction generalizing n with
  | plain ls hplain =>
    rw [outside_plain n hplain, outside_plain n (plain_map hfence hplain)]
    rfl
  | unpaired lead opening tail hlead hopening htail =>
    obtain ⟨hlead', hrest'⟩ := List.forall_mem_append.mp hfence
    obtain ⟨hopening', htail'⟩ := List.forall_mem_cons.mp hrest'
    rw [outside_unpaired n hlead hopening htail, List.map_append, List.map_cons,
      outside_unpaired n (plain_map hlead' hlead) (hopening'.trans hopening)
        (plain_map htail' htail), List.length_map]
    rfl
  | paired lead opening front closing rest hlead hopening hfront hclosing ih =>
    obtain ⟨hlead', hpair'⟩ := List.forall_mem_append.mp hfence
    obtain ⟨hopeningFront', hrest'⟩ := List.forall_mem_append.mp hpair'
    obtain ⟨hopening', hfront'⟩ := List.forall_mem_cons.mp hopeningFront'
    obtain ⟨hclosing', hrest'⟩ := List.forall_mem_cons.mp hrest'
    rw [outside_paired n hlead hopening hfront hclosing, List.map_append, List.map_append,
      List.map_cons, List.map_cons,
      outside_paired n (plain_map hlead' hlead) (hopening'.trans hopening)
        (plain_map hfront' hfront) (hclosing'.trans hclosing), List.length_map, List.length_map,
      ih _ hrest', untilFence_map hrest']
    rfl

end Layout

/-! ## Front matters -/

/-- Entries are read from trimmed lines. -/
theorem readEntries_map (origin : String) {g : List Char → List Char} (n : Nat)
    {front : List (List Char)} (h : ∀ l ∈ front, Text.trim (g l) = Text.trim l) :
    readEntries origin n (front.map g) = readEntries origin n front := by
  induction front generalizing n with
  | nil => rfl
  | cons line rest ih =>
    obtain ⟨hline, hrest⟩ := List.forall_mem_cons.mp h
    have hblank : Text.allBlank (g line) = Text.allBlank line := by
      rw [Bool.eq_iff_iff, ← Text.trim_eq_nil_iff, ← Text.trim_eq_nil_iff, hline]
    have hentry : ∀ location, Entry.ofLine location (g line) = Entry.ofLine location line := by
      intro location
      unfold Entry.ofLine
      rw [hline]
    rw [List.map_cons, readEntries, readEntries, hblank, ih _ hrest, hentry]

/-! ## Notes -/

/-- The block with its notes changed, if it has notes. -/
def Block.mapNotes (g : String → String) : Block → Block
  | .task record => .task { record with notes := g record.notes }
  | .inclusion files => .inclusion files

/-- A result with its value changed and its reports as they are. -/
def Logged.mapValue {α β : Type} (g : α → β) (x : Logged α) : Logged β :=
  ⟨g x.value, x.log⟩

/-- Steps in a row have their values changed one by one. -/
theorem Logged.bind_mapValue {α α' β β' : Type} {g : α → α'} {g' : β → β'} (x : Logged α)
    {next : α → Logged β} {next' : α' → Logged β'} (h : ∀ a, next' (g a) = (next a).mapValue g') :
    x.mapValue g >>= next' = (x >>= next).mapValue g' := by
  ext1
  · show (next' (g x.value)).value = ((next x.value).mapValue g').value
    rw [h]
  · show x.log ++ (next' (g x.value)).log = x.log ++ ((next x.value).mapValue g').log
    rw [h]

section Notes

variable (g : String → String)

/-- Notes are passed on to the record as they are. -/
theorem readTask_notes (opening : Location) (notes : String) (items : List Item) :
    readTask opening (g notes) items =
      (readTask opening notes items).mapValue (Option.map (Block.mapNotes g)) := by
  ext1
  · show _ = (readTask opening notes items).value.map (Block.mapNotes g)
    rw [value_readTask, value_readTask, Option.map_map]
    unfold Record.ofFields?
    rw [Option.map_map, Option.map_map]
    rfl
  · show _ = (readTask opening notes items).log
    rw [log_readTask, log_readTask]

theorem readItems_notes (opening : Location) (notes : String) (items : List Item) :
    readItems opening (g notes) items =
      (readItems opening notes items).mapValue (Option.map (Block.mapNotes g)) := by
  unfold readItems
  rw [readTask_notes]
  split
  · split <;> rfl
  · rfl

theorem readBlock_notes (opening : Location) (notes : String) (entries : List Entry) :
    readBlock opening (g notes) entries =
      (readBlock opening notes entries).mapValue (Option.map (Block.mapNotes g)) := by
  have hlog : (readBlock opening (g notes) entries).log =
      (readBlock opening notes entries).log := by
    rw [log_readBlock, log_readBlock, readItems_notes]
    rfl
  refine Logged.ext ?_ hlog
  rw [value_readBlock, hlog, readItems_notes]
  show _ = (readBlock opening notes entries).value.map _
  rw [value_readBlock]
  split <;> rfl

end Notes

/-! ## Sections and documents -/

theorem Section.notesText_addReturns (s : Section) :
    (s.mapLines Text.addReturns).notesText = withReturns s.notesText := by
  unfold notesText withReturns
  rw [String.toList_ofList, Text.addReturns_flatten]
  rfl

theorem Section.read_addReturns (origin : String) {s : Section}
    (hfront : ∀ l ∈ s.front, Text.trim (Text.addReturns l) = Text.trim l) :
    (s.mapLines Text.addReturns).read origin =
      (s.read origin).mapValue (Option.map (Block.mapNotes withReturns)) := by
  have hblank : Text.allBlank (s.mapLines Text.addReturns).notes.flatten =
      Text.allBlank s.notes.flatten := by
    rw [← Text.allBlank_addReturns s.notes.flatten, Text.addReturns_flatten]
    rfl
  unfold Section.read
  rw [s.notesText_addReturns, hblank]
  show (readEntries origin (s.line + 1) (s.front.map Text.addReturns)).mapValue id >>= _ = _
  rw [readEntries_map origin _ hfront]
  refine Logged.bind_mapValue _ fun entries => ?_
  rw [id, readBlock_notes]
  refine Logged.bind_mapValue _ fun block => ?_
  rcases block with _ | record | files
  · rfl
  · rfl
  · -- notes of an include block bring the same warning
    show (if _ then _ else _) = Logged.mapValue _ (if _ then _ else _)
    cases Text.allBlank s.notes.flatten <;> rfl

theorem firstText?_addReturns (n : Nat) (lead : List (List Char)) :
    firstText? n (lead.map Text.addReturns) = firstText? n lead := by
  induction lead generalizing n with
  | nil => rfl
  | cons line rest ih =>
    rw [List.map_cons, firstText?, firstText?, Text.allBlank_addReturns, ih]

/-- The layout of a text with returns: its lines have them, and nothing else changes. -/
theorem Layout.ofText_withReturns (text : String) :
    ofText (withReturns text) = ⟨(ofText text).lead.map Text.addReturns,
      (ofText text).sections.map (Section.mapLines Text.addReturns),
      (ofText text).unterminated⟩ := by
  have htrim := (Text.lined_lines text.toList).trim_addReturns
  unfold ofText
  rw [toList_withReturns, Text.lines_addReturns]
  refine outside_map 1 fun l hl => ?_
  unfold isFence
  rw [htrim l hl]

/-- **Line ends with a carriage return change nothing but notes.**  With a return before
each newline of a text, the same blocks are read from it, but for the returns in the notes
of tasks, and the same is reported. -/
theorem readDocument_withReturns (origin text : String) :
    (readDocument origin (withReturns text)).value =
        (readDocument origin text).value.map (Block.mapNotes withReturns) ∧
      (readDocument origin (withReturns text)).log = (readDocument origin text).log := by
  have htrim := (Text.lined_lines text.toList).trim_addReturns
  have hread : ∀ s ∈ (Layout.ofText text).sections, (s.mapLines Text.addReturns).read origin =
      (s.read origin).mapValue (Option.map (Block.mapNotes withReturns)) := fun s hs =>
    Section.read_addReturns origin fun l hl =>
      htrim l (((Layout.drawn_of_mem 1 _).1 s hs).front l hl)
  constructor
  · rw [value_readDocument, value_readDocument, Layout.ofText_withReturns, List.filterMap_map,
      List.map_filterMap]
    exact List.filterMap_congr fun s hs => congrArg Logged.value (hread s hs)
  · have hlog : ((Layout.ofText text).sections.map (Section.mapLines Text.addReturns)).flatMap
        (fun s => (s.read origin).log) =
        (Layout.ofText text).sections.flatMap fun s => (s.read origin).log := by
      rw [List.flatMap_map]
      refine List.flatMap_congr fun s hs => ?_
      rw [hread s hs]
      rfl
    rw [log_readDocument, log_readDocument, Layout.ofText_withReturns, firstText?_addReturns, hlog]

/-- The return stays in the notes, and nowhere else. -/
example : (readDocument "a.md" (withReturns "---\ntask 1\n---\nNotes\n")).value =
    [.task { Record.bare ⟨[1], by decide, by decide⟩ ⟨"a.md", 1⟩ with notes := "Notes\r\n" }] := by
  rfl

end TaskOutline
