import TaskOutline.Document.Expansion
import TaskOutline.Proofs.Document.Drafts

/-! # Where a text stands does not matter

Locations are carried along while a text is read and are never looked at.  So a
text that is read under another name, or from another line on, gives the same
blocks and the same reports with the locations changed accordingly: reading
commutes with `relocate`.

A result with reports is changed as a whole (`Logged.relocate`), and `bind_relocate`
takes a chain of steps apart, so that each reader has one equation here.
-/
namespace TaskOutline

/-- The location that many lines further on, in the text of another name. -/
def Location.move (origin : String) (lines : Nat) (l : Location) : Location :=
  ⟨origin, l.line + lines⟩

def Record.relocate (f : Location → Location) (r : Record) : Record :=
  { r with location := f r.location }

def Inclusion.relocate (f : Location → Location) (files : Inclusion) : Inclusion :=
  { files with location := f files.location }

def Block.relocate (f : Location → Location) : Block → Block
  | .task record => .task (record.relocate f)
  | .inclusion files => .inclusion (files.relocate f)

def Entry.relocate (f : Location → Location) (e : Entry) : Entry :=
  { e with location := f e.location }

def Item.relocate (f : Location → Location) (i : Item) : Item :=
  { i with location := f i.location }

def Diagnostic.relocate (f : Location → Location) (d : Diagnostic) : Diagnostic :=
  { d with location := d.location.map f }

/-- A result with its reports relocated and its value changed by `g`. -/
def Logged.relocate {α β : Type} (f : Location → Location) (g : α → β) (x : Logged α) :
    Logged β :=
  ⟨g x.value, x.log.map (Diagnostic.relocate f)⟩

section Relocate

variable (f : Location → Location)

/-- Steps in a row are relocated one by one. -/
theorem Logged.bind_relocate {α α' β β' : Type} {g : α → α'} {g' : β → β'} (x : Logged α)
    {next : α → Logged β} {next' : α' → Logged β'}
    (h : ∀ a, next' (g a) = (next a).relocate f g') :
    x.relocate f g >>= next' = (x >>= next).relocate f g' := by
  have hvalue : next' (g x.value) = (next x.value).relocate f g' := h x.value
  show (⟨(next' (g x.value)).value, x.log.map (Diagnostic.relocate f) ++
    (next' (g x.value)).log⟩ : Logged β') = _
  rw [hvalue]
  show (⟨_, _ ++ (next x.value).log.map (Diagnostic.relocate f)⟩ : Logged β') = _
  rw [← List.map_append]
  rfl

/-! ## A front matter -/

theorem readFields_relocate (seen : List Key) (items : List Item) :
    readFields seen (items.map (Item.relocate f)) = (readFields seen items).relocate f id := by
  induction items generalizing seen with
  | nil => rfl
  | cons item rest ih =>
    rw [List.map_cons]
    by_cases hrep : item.key ∈ seen ∧ !item.key.mayRepeat
    · rw [readFields_of_repeat item rest hrep,
        readFields_of_repeat (item.relocate f) _ hrep]
      exact Logged.bind_relocate f (Logged.error item.location _) fun _ => ih seen
    · cases hread : Field.read item.key item.value with
      | error problem =>
        rw [readFields_of_error item rest hrep hread,
          readFields_of_error (item.relocate f) _ hrep hread]
        exact Logged.bind_relocate f (Logged.error item.location problem) fun _ => ih _
      | ok field =>
        rw [readFields_of_ok item rest hrep hread,
          readFields_of_ok (item.relocate f) _ hrep hread]
        show readFields (item.key :: seen) _ >>= _ = _
        rw [ih]
        exact Logged.bind_relocate f _ fun _ => rfl

theorem readInclusion_relocate (opening : Location) (items : List Item) :
    readInclusion (f opening) (items.map (Item.relocate f)) =
      (readInclusion opening items).relocate f (Option.map (Block.relocate f)) := by
  unfold readInclusion
  rw [readFields_relocate]
  exact Logged.bind_relocate f _ fun _ => rfl

theorem Record.ofFields?_relocate (fields : List Field) (notes : String) (opening : Location) :
    Record.ofFields? fields notes (f opening) =
      (Record.ofFields? fields notes opening).map (Record.relocate f) := by
  unfold Record.ofFields?
  rw [Option.map_map]
  rfl

theorem readTask_relocate (opening : Location) (notes : String) (items : List Item) :
    readTask (f opening) notes (items.map (Item.relocate f)) =
      (readTask opening notes items).relocate f (Option.map (Block.relocate f)) := by
  have hall : ((items.map (Item.relocate f)).all fun item => item.key ≠ .task) =
      items.all fun item => item.key ≠ .task := by
    rw [List.all_map]
    rfl
  unfold readTask
  rw [readFields_relocate, hall]
  refine Logged.bind_relocate f _ fun fields => ?_
  rw [id, Record.ofFields?_relocate]
  cases items.all fun item => item.key ≠ .task <;>
    cases Record.ofFields? fields notes opening <;> rfl

theorem readItems_relocate (opening : Location) (notes : String) (items : List Item) :
    readItems (f opening) notes (items.map (Item.relocate f)) =
      (readItems opening notes items).relocate f (Option.map (Block.relocate f)) := by
  have hany : ∀ p : Key → Bool, ((items.map (Item.relocate f)).any fun item => p item.key) =
      items.any fun item => p item.key := by
    intro p
    rw [List.any_map]
    rfl
  unfold readItems
  rw [hany fun key => key = .inclusion, hany fun key => key ≠ .inclusion, readInclusion_relocate,
    readTask_relocate]
  split
  · split <;> rfl
  · rfl

theorem item?_relocate (e : Entry) :
    (e.relocate f).item? = e.item?.map (Item.relocate f) := by
  unfold Entry.item?
  rw [Option.map_map]
  rfl

theorem unknown?_relocate (e : Entry) :
    (e.relocate f).unknown? = e.unknown?.map (Diagnostic.relocate f) := by
  unfold Entry.unknown? Entry.relocate
  dsimp only
  split <;> rfl

theorem readBlock_relocate (opening : Location) (notes : String) (entries : List Entry) :
    readBlock (f opening) notes (entries.map (Entry.relocate f)) =
      (readBlock opening notes entries).relocate f (Option.map (Block.relocate f)) := by
  have hunknown : (entries.map (Entry.relocate f)).filterMap Entry.unknown? =
      (entries.filterMap Entry.unknown?).map (Diagnostic.relocate f) := by
    rw [List.filterMap_map, List.map_filterMap]
    exact congrArg (List.filterMap · entries) (funext (unknown?_relocate f))
  have hitems : (entries.map (Entry.relocate f)).filterMap Entry.item? =
      (entries.filterMap Entry.item?).map (Item.relocate f) := by
    rw [List.filterMap_map, List.map_filterMap]
    exact congrArg (List.filterMap · entries) (funext (item?_relocate f))
  have hlog : (readBlock (f opening) notes (entries.map (Entry.relocate f))).log =
      (readBlock opening notes entries).log.map (Diagnostic.relocate f) := by
    rw [log_readBlock, log_readBlock, hunknown, hitems, readItems_relocate, List.map_append]
    rfl
  refine Logged.ext ?_ hlog
  rw [value_readBlock, hlog, hitems, readItems_relocate, List.isEmpty_map]
  show _ = (readBlock opening notes entries).value.map _
  rw [value_readBlock]
  split <;> rfl

end Relocate

/-! ## A whole text -/

section Move

variable (origin origin' : String) (k : Nat)

theorem readEntries_move (n : Nat) (front : List (List Char)) :
    readEntries origin' (n + k) front =
      (readEntries origin n front).relocate (Location.move origin' k)
        (List.map (Entry.relocate (Location.move origin' k))) := by
  induction front generalizing n with
  | nil => rfl
  | cons line rest ih =>
    have hrest := ih (n + 1)
    rw [Nat.add_right_comm] at hrest
    unfold readEntries
    by_cases hblank : Text.allBlank line = true
    · rw [if_pos hblank, if_pos hblank, hrest]
      rfl
    · rw [if_neg hblank, if_neg hblank, hrest]
      exact Logged.bind_relocate _ _ fun _ => rfl

/-- A section that many lines further on. -/
def Section.move (s : Section) : Section := { s with line := s.line + k }

theorem Section.read_move (s : Section) :
    (s.move k).read origin' =
      (s.read origin).relocate (Location.move origin' k)
        (Option.map (Block.relocate (Location.move origin' k))) := by
  have hline : s.line + k + 1 = s.line + 1 + k := by omega
  unfold Section.read Section.move
  dsimp only
  rw [hline, readEntries_move origin]
  refine Logged.bind_relocate _ _ fun entries => ?_
  have hblock := readBlock_relocate (Location.move origin' k) ⟨origin, s.line⟩ s.notesText entries
  show (readBlock _ s.notesText _ >>= _) = _
  rw [show Location.mk origin' (s.line + k) = Location.move origin' k ⟨origin, s.line⟩ from rfl,
    hblock]
  refine Logged.bind_relocate _ _ fun block => ?_
  cases block with
  | none => rfl
  | some block =>
    cases block with
    | task record => rfl
    | inclusion files =>
      -- notes of an include block bring a warning at its opening, which moves along
      show (if _ then _ else _) = Logged.relocate _ _ (if _ then _ else _)
      cases Text.allBlank s.notes.flatten <;> rfl

/-- **Sections read under another name, or further on, say the same.** -/
theorem readSections_move (sections : List Section) :
    readSections origin' (sections.map (Section.move k)) =
      (readSections origin sections).relocate (Location.move origin' k)
        (List.map (Block.relocate (Location.move origin' k))) := by
  induction sections with
  | nil => rfl
  | cons s rest ih =>
    rw [List.map_cons]
    unfold readSections
    rw [Section.read_move origin, ih]
    refine Logged.bind_relocate _ _ fun block => ?_
    refine Logged.bind_relocate _ _ fun blocks => ?_
    cases block <;> rfl

theorem Section.move_zero (s : Section) : s.move 0 = s := rfl

theorem Section.move_move (s : Section) (k' : Nat) : (s.move k).move k' = s.move (k + k') := by
  rw [Section.move, Section.move, Section.move, Nat.add_assoc]

/-- **A text read under another name says the same.** -/
theorem readDocument_rename (text : String) :
    readDocument origin' text =
      (readDocument origin text).relocate (Location.move origin' 0)
        (List.map (Block.relocate (Location.move origin' 0))) := by
  have hsections := readSections_move origin origin' 0 (Layout.ofText text).sections
  rw [List.map_congr_left fun s _ => Section.move_zero s, List.map_id'] at hsections
  unfold readDocument Layout.read
  rw [hsections]
  cases firstText? 1 (Layout.ofText text).lead <;>
    cases (Layout.ofText text).unterminated <;>
      simp [Logged.relocate, Logged.warn, Logged.error, Logged.report, bind, pure,
        Diagnostic.relocate, Location.move]

end Move

/-! ## What a text asks for -/

def Step.relocate (f : Location → Location) : Step → Step
  | .task record => .task (record.relocate f)
  | .visit path location => .visit path (f location)

theorem Block.steps_relocate (f : Location → Location) (blocks : List Block) :
    (blocks.map (Block.relocate f)).flatMap Block.steps =
      (blocks.flatMap Block.steps).map (Step.relocate f) := by
  rw [List.flatMap_map, List.map_flatMap]
  refine congrArg (List.flatMap · blocks) (funext fun block => ?_)
  cases block with
  | task record => rfl
  | inclusion files => simp [Block.relocate, Inclusion.relocate, Block.steps, Step.relocate]

end TaskOutline
