import TaskOutline.Document.Block
import TaskOutline.Proofs.Document.Meaning

/-! # Blocks that are read silently

A block is read with flags: one for its keys, and one in the draft of its items, which a
report turns off.  So a block comes out exactly if nothing has been reported
(`value_readBlock`), and then it is what the fields say that could be read.  Reading the
fields takes no flag, only the keys that have been seen (`readFields`), and what is read is
told by that from here on.
-/
namespace TaskOutline

/-! ## Reading without flags -/

/-- The error about an entry whose key is not known. -/
def Entry.unknown? (e : Entry) : Option Diagnostic :=
  match Key.ofText? e.key with
  | some _ => none
  | none => some ⟨.error, some e.location, .unknownProperty e.key⟩

/-- Reads items from the first on. An item whose key stands in `seen`, or on an
earlier item, is refused unless the key may repeat. -/
def readFields (seen : List Key) : List Item → Logged (List Field)
  | [] => return []
  | item :: rest =>
    if item.key ∈ seen ∧ !item.key.mayRepeat then do
      Logged.error item.location (.malformed (.duplicateProperty item.key.text))
      readFields seen rest
    else match Field.read item.key item.value with
      | .error problem => do
        Logged.error item.location problem
        readFields (item.key :: seen) rest
      | .ok field => do
        let fields ← readFields (item.key :: seen) rest
        return field :: fields

theorem readFields_of_repeat {seen : List Key} (item : Item) (rest : List Item)
    (h : item.key ∈ seen ∧ !item.key.mayRepeat) :
    readFields seen (item :: rest) =
      (Logged.error item.location (.malformed (.duplicateProperty item.key.text)) >>= fun _ =>
        readFields seen rest) := by
  rw [readFields, if_pos h]

theorem readFields_of_error {seen : List Key} (item : Item) (rest : List Item)
    (h : ¬ (item.key ∈ seen ∧ !item.key.mayRepeat)) {problem : Problem}
    (hread : Field.read item.key item.value = .error problem) :
    readFields seen (item :: rest) =
      (Logged.error item.location problem >>= fun _ => readFields (item.key :: seen) rest) := by
  rw [readFields, if_neg h, hread]

theorem readFields_of_ok {seen : List Key} (item : Item) (rest : List Item)
    (h : ¬ (item.key ∈ seen ∧ !item.key.mayRepeat)) {field : Field}
    (hread : Field.read item.key item.value = .ok field) :
    readFields seen (item :: rest) =
      (readFields (item.key :: seen) rest >>= fun fields => return field :: fields) := by
  rw [readFields, if_neg h, hread]

theorem mem_readFields {seen : List Key} {items : List Item} {f : Field}
    (h : f ∈ (readFields seen items).value) :
    ∃ item ∈ items, Field.read item.key item.value = .ok f := by
  induction items generalizing seen with
  | nil => cases h
  | cons item rest ih =>
    have hrest : ∀ {seen : List Key}, f ∈ (readFields seen rest).value →
        ∃ i ∈ item :: rest, Field.read i.key i.value = .ok f := by
      intro seen hf
      obtain ⟨i, hi, hread⟩ := ih hf
      exact ⟨i, List.mem_cons_of_mem _ hi, hread⟩
    by_cases hrep : item.key ∈ seen ∧ !item.key.mayRepeat
    · rw [readFields_of_repeat item rest hrep] at h
      exact hrest h
    · cases hread : Field.read item.key item.value with
      | error problem =>
        rw [readFields_of_error item rest hrep hread] at h
        exact hrest h
      | ok field =>
        rw [readFields_of_ok item rest hrep hread] at h
        rcases List.mem_cons.mp h with rfl | h
        · exact ⟨item, List.mem_cons_self, hread⟩
        · exact hrest h

/-- Reads the items of a block that includes files. -/
def readInclusion (opening : Location) (items : List Item) : Logged (Option Block) := do
  let fields ← readFields [] items
  return some (.inclusion ⟨fields.filterMap Field.path?, opening⟩)

/-- Reads the items of a block that declares a task. -/
def readTask (opening : Location) (notes : String) (items : List Item) :
    Logged (Option Block) := do
  let fields ← readFields [] items
  if items.all fun item => item.key ≠ .task then
    Logged.error opening (.malformed .missingTask)
  return (Record.ofFields? fields notes opening).map .task

theorem log_readTask (opening : Location) (notes : String) (items : List Item) :
    (readTask opening notes items).log = (readFields [] items).log ++
    if ∀ item ∈ items, item.key ≠ .task then
      [⟨.error, some opening, .malformed .missingTask⟩] else [] := by
  unfold readTask
  rw [Logged.log_bind]
  by_cases h : ∀ item ∈ items, item.key ≠ .task
  · have hall : (items.all fun item => item.key ≠ .task) = true := by simpa using h
    rw [if_pos h, hall]
    rfl
  · have hall : (items.all fun item => item.key ≠ .task) = false := by simpa using h
    rw [if_neg h, hall]
    rfl

theorem value_readTask (opening : Location) (notes : String) (items : List Item) :
    (readTask opening notes items).value =
    (Record.ofFields? (readFields [] items).value notes opening).map .task := by
  unfold readTask
  split <;> rfl

/-- Reads items as the kind of block that their keys call for. -/
def readItems (opening : Location) (notes : String) (items : List Item) :
    Logged (Option Block) :=
  if items.any fun item => item.key = .inclusion then
    if items.any fun item => item.key ≠ .inclusion then do
      Logged.error opening (.malformed .mixedBlock)
      return none
    else readInclusion opening items
  else readTask opening notes items

/-! ## The flags -/

/-- A value that is given only if nothing has been reported. -/
def Logged.ifSilent {α : Type} (x : Logged (Option α)) : Logged (Option α) :=
  ⟨if x.log.isEmpty then x.value else none, x.log⟩

namespace BlockDraft

variable {d : BlockDraft} {seen : List Key} {x : Logged (List Field)} {y : Logged BlockDraft}

/-- A draft has grown by the fields of a reading: with the same reports, and with a flag
that says whether there have been any. -/
structure GrownBy (d : BlockDraft) (x : Logged (List Field)) (y : Logged BlockDraft) : Prop where
  log : y.log = x.log
  fields : y.value.fields = d.fields ++ x.value
  sound : y.value.sound = (d.sound && x.log.isEmpty)

theorem GrownBy.after_error (location : Location) (problem : Problem)
    (h : GrownBy { d with seen := seen, sound := false } x y) :
    d.GrownBy (Logged.error location problem >>= fun _ => x)
      (Logged.error location problem >>= fun _ => y) where
  log := congrArg (_ ++ ·) h.log
  fields := h.fields
  sound := by
    rw [Logged.value_bind, h.sound, Bool.false_and]
    exact (Bool.and_false _).symm

theorem GrownBy.after_field (field : Field)
    (h : GrownBy { d with seen := seen, fields := d.fields ++ [field] } x y) :
    d.GrownBy (x >>= fun fields => return field :: fields) y where
  log := h.log.trans (List.append_nil _).symm
  fields := h.fields.trans (List.append_assoc _ _ _)
  sound := by rw [h.sound, Logged.log_bind, Logged.log_pure, List.append_nil]

/-- The draft refuses the keys that are refused when those of the list have been seen. -/
def Refuses (d : BlockDraft) (seen : List Key) : Prop :=
  ∀ key : Key, (!key.mayRepeat ∧ key ∈ d.seen) ↔ (key ∈ seen ∧ !key.mayRepeat)

theorem refuses_empty : ({} : BlockDraft).Refuses [] := by simp [Refuses]

/-- One key more is refused, unless it may come again. -/
theorem Refuses.cons {fields : List Field} {sound : Bool} (h : d.Refuses seen) (key : Key) :
    Refuses ⟨fields, if key.mayRepeat then d.seen else key :: d.seen, sound⟩ (key :: seen) := by
  intro other
  have hother := h other
  by_cases heq : other = key
  · subst heq
    cases other.mayRepeat <;> simp
  · cases key.mayRepeat <;> simpa [heq] using hother

/-- **Items are added as their fields are read.** -/
theorem grownBy_foldlM_add (items : List Item) (h : d.Refuses seen) :
    d.GrownBy (readFields seen items) (items.foldlM add d) := by
  induction items generalizing d seen with
  | nil => exact ⟨rfl, (List.append_nil _).symm, (Bool.and_true _).symm⟩
  | cons item rest ih =>
    rw [List.foldlM_cons, add]
    by_cases hrep : item.key ∈ seen ∧ !item.key.mayRepeat
    · rw [if_pos ((h _).mpr hrep), readFields_of_repeat item rest hrep]
      exact (ih (d := { d with sound := false }) h).after_error item.location _
    · rw [if_neg (mt (h _).mp hrep)]
      cases hread : Field.read item.key item.value with
      | error problem =>
        rw [readFields_of_error item rest hrep hread]
        exact (ih (h.cons item.key)).after_error item.location problem
      | ok field =>
        rw [readFields_of_ok item rest hrep hread]
        exact (ih (h.cons item.key)).after_field field

/-- A key that must not come again has been seen once an item has it. -/
theorem mem_seen_add {key : Key} (hkey : key.mayRepeat = false) (d : BlockDraft) (item : Item) :
    key ∈ (d.add item).value.seen ↔ key ∈ d.seen ∨ item.key = key := by
  unfold add
  split
  · rename_i hrep
    refine (or_iff_left_of_imp ?_).symm
    rintro rfl
    exact hrep.2
  · have hseen : key ∈ (if item.key.mayRepeat then d.seen else item.key :: d.seen) ↔
        key ∈ d.seen ∨ item.key = key := by
      split
      · rename_i hmay
        refine (or_iff_left_of_imp ?_).symm
        rintro rfl
        exact absurd hmay (by simp [hkey])
      · rw [List.mem_cons, or_comm, eq_comm]
    dsimp only
    split <;> exact hseen

theorem mem_seen_foldlM_add {key : Key} (hkey : key.mayRepeat = false) (d : BlockDraft)
    (items : List Item) :
    key ∈ (items.foldlM add d).value.seen ↔ key ∈ d.seen ∨ ∃ item ∈ items, item.key = key := by
  induction items generalizing d with
  | nil => simp
  | cons item rest ih =>
    rw [List.foldlM_cons, Logged.value_bind, ih, mem_seen_add hkey, or_assoc]
    simp

end BlockDraft

/-! ## Blocks -/

/-- A record has an identifier, so that an item names the task. -/
theorem exists_task_of_ofFields? {items : List Item} {notes : String} {opening : Location}
    {record : Record}
    (h : Record.ofFields? (readFields [] items).value notes opening = some record) :
    ∃ item ∈ items, item.key = .task := by
  obtain ⟨id, hid, -⟩ := Option.map_eq_some_iff.mp h
  obtain ⟨field, hfield, hdeclares⟩ := List.exists_of_findSome?_eq_some hid
  obtain ⟨item, hitem, hread⟩ := mem_readFields hfield
  refine ⟨item, hitem, ?_⟩
  cases field with
  | task id => exact (Field.read_eq_ok_iff.mp hread).key_eq.symm
  | _ => cases hdeclares

theorem buildInclusion_eq (opening : Location) (items : List Item) :
    buildInclusion opening items = (readInclusion opening items).ifSilent := by
  obtain ⟨hlog, hfields, hsound⟩ := BlockDraft.grownBy_foldlM_add items BlockDraft.refuses_empty
  apply Logged.ext
  · show (if (items.foldlM BlockDraft.add {}).value.sound then _ else none) =
      if ((readFields [] items).log ++ []).isEmpty then _ else none
    rw [hsound, hfields, List.append_nil]
    rfl
  · exact congrArg (· ++ []) hlog

theorem buildTask_eq (opening : Location) (notes : String) (items : List Item) :
    buildTask opening notes items = (readTask opening notes items).ifSilent := by
  obtain ⟨hlog, hfields, hsound⟩ := BlockDraft.grownBy_foldlM_add items BlockDraft.refuses_empty
  have hseen : .task ∈ (items.foldlM BlockDraft.add {}).value.seen ↔
      ∃ item ∈ items, item.key = .task :=
    (BlockDraft.mem_seen_foldlM_add rfl {} items).trans (or_iff_right List.not_mem_nil)
  unfold buildTask Logged.ifSilent
  rw [value_readTask, log_readTask]
  cases hrecord : Record.ofFields? (readFields [] items).value notes opening with
  | none =>
    apply Logged.ext
    · rw [Logged.value_bind, hfields, List.nil_append, hrecord, Option.map_none, ite_self]
      dsimp only
      split <;> rfl
    · rw [Logged.log_bind, hlog, hfields, List.nil_append, hrecord]
      congr 1
      by_cases htask : ∃ item ∈ items, item.key = .task
      · simp [hseen.mpr htask, htask]
      · simp [mt hseen.mp htask, htask]
  | some record =>
    have htask := exists_task_of_ofFields? hrecord
    apply Logged.ext
    · rw [Logged.value_bind, hfields, List.nil_append, hrecord, hsound]
      simp [htask]
    · rw [Logged.log_bind, hlog, hfields, List.nil_append, hrecord]
      simp [htask]

theorem buildItems_eq (opening : Location) (notes : String) (items : List Item) :
    buildItems opening notes items = (readItems opening notes items).ifSilent := by
  unfold buildItems readItems
  split
  · split
    · rfl
    · exact buildInclusion_eq opening items
  · exact buildTask_eq opening notes items

theorem Entry.checkKey_eq (known : Bool) (e : Entry) :
    Entry.checkKey known e = ⟨known && e.unknown?.isNone, e.unknown?.toList⟩ := by
  unfold Entry.checkKey Entry.unknown?
  cases Key.ofText? e.key with
  | some key => exact Logged.ext (Bool.and_true known).symm rfl
  | none => exact Logged.ext (Bool.and_false known).symm rfl

theorem Entry.foldlM_checkKey (known : Bool) (entries : List Entry) :
    entries.foldlM Entry.checkKey known =
      ⟨known && (entries.filterMap Entry.unknown?).isEmpty, entries.filterMap Entry.unknown?⟩ := by
  induction entries generalizing known with
  | nil => exact Logged.ext (Bool.and_true known).symm rfl
  | cons e rest ih =>
    rw [List.foldlM_cons, List.filterMap_cons, Entry.checkKey_eq]
    cases e.unknown? with
    | none => exact Logged.ext (by simp [ih]) (by simp [ih])
    | some d => exact Logged.ext (by simp [ih]) (by simp [ih])

section Entries

variable (opening : Location) (notes : String) (entries : List Entry)

/-- What is reported of a block: the keys that are not known, and then the items. -/
theorem log_readBlock : (readBlock opening notes entries).log = entries.filterMap Entry.unknown? ++
    (readItems opening notes (entries.filterMap Entry.item?)).log := by
  unfold readBlock
  rw [Entry.foldlM_checkKey, buildItems_eq]
  exact congrArg (_ ++ ·) (List.append_nil _)

/-- **A block comes out exactly if nothing is reported**: the flags of its keys and of its
items say no more than its reports do. -/
theorem value_readBlock : (readBlock opening notes entries).value =
    if (readBlock opening notes entries).log.isEmpty then
      (readItems opening notes (entries.filterMap Entry.item?)).value else none := by
  rw [log_readBlock]
  unfold readBlock
  rw [Entry.foldlM_checkKey, buildItems_eq]
  cases entries.filterMap Entry.unknown? <;> rfl

theorem value_readBlock_of_silent (h : (readBlock opening notes entries).log = []) :
    (readBlock opening notes entries).value =
      (readItems opening notes (entries.filterMap Entry.item?)).value := by
  rw [value_readBlock, h]
  rfl

theorem readBlock_of_silent {block : Option Block} (hknown : entries.filterMap Entry.unknown? = [])
    (hitems : readItems opening notes (entries.filterMap Entry.item?) = ⟨block, []⟩) :
    readBlock opening notes entries = ⟨block, []⟩ := by
  have hsilent : (readBlock opening notes entries).log = [] := by
    rw [log_readBlock, hknown, hitems, List.append_nil]
  refine Logged.ext ?_ hsilent
  rw [value_readBlock_of_silent opening notes entries hsilent, hitems]

theorem value_readBlock_of_report (h : (readBlock opening notes entries).log ≠ []) :
    (readBlock opening notes entries).value = none := by
  rw [value_readBlock, if_neg (mt List.isEmpty_iff.mp h)]

end Entries

theorem value_readItems_of_readBlock {opening : Location} {notes : String} {entries : List Entry}
    {block : Block} (h : (readBlock opening notes entries).value = some block) :
    (readItems opening notes (entries.filterMap Entry.item?)).value = some block := by
  rw [value_readBlock] at h
  split at h
  · exact h
  · cases h

end TaskOutline
