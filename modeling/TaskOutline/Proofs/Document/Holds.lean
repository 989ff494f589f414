import TaskOutline.Proofs.Document.Grammar
import TaskOutline.Proofs.Document.Readable

/-! # What a record holds

A record is put together from fields, each of them read from one value.  Field by field
that is undone here: what the fields of a key declare is what is read from the values of
the key (`map_valuesOf`), so that a record holds what the properties say and nothing else
(`holds_of_means`), and a block of files has the paths that its lines give.
-/
namespace TaskOutline

/-- The values of a property declare it so: one value that is read, or none at all. -/
def Declares {α : Type} (read : String → Except Reason α) (values : List String)
    (d : Declared α) : Prop :=
  (values = [] ∧ d = .unset) ∨ ∃ v, values = [v] ∧ Declared.parse read v = .ok d

/-- The record says what the properties say. -/
structure Holds (front : List (String × String)) (r : Record) : Prop where
  id : ∃ v, valuesOf "task" front = [v] ∧ TaskId.parse v = .ok r.id
  label : valuesOf "label" front = r.label.toList
  status : (valuesOf "status" front).map Status.parse = r.status.toList.map .ok
  priority : Declares Priority.parse (valuesOf "priority" front) r.priority
  deadline : Declares Date.parse (valuesOf "deadline" front) r.deadline
  depends : ∀ id, id ∈ r.depends ↔ ∃ v ∈ valuesOf "depends" front, ∃ w ∈ Text.words v.toList,
    TaskId.parse (String.ofList w) = .ok id

section Means

variable {items : List Item} {fields : List Field}

/-- A part of fields: what those of one key declare, as it is read from their values. -/
structure Field.IsPart {ε α : Type} (key : Key) (read : String → Except ε α)
    (part? : Field → Option α) : Prop where
  own : ∀ v f, Means key v f → ∃ a, read v = .ok a ∧ part? f = some a
  other : ∀ f : Field, f.key ≠ key → part? f = none

namespace Field

theorem isPart_id : IsPart .task TaskId.parse id? where
  own _ _ h := by
    cases h with
    | task hid => exact ⟨_, hid, rfl⟩
  other f h := by
    cases f with
    | task => exact absurd rfl h
    | _ => rfl

theorem isPart_label : IsPart .label (Except.ok : String → Except Reason String) label? where
  own _ _ h := by
    cases h with
    | label => exact ⟨_, rfl, rfl⟩
  other f h := by
    cases f with
    | label => exact absurd rfl h
    | _ => rfl

theorem isPart_status : IsPart .status Status.parse status? where
  own _ _ h := by
    cases h with
    | status hs => exact ⟨_, hs, rfl⟩
  other f h := by
    cases f with
    | status => exact absurd rfl h
    | _ => rfl

theorem isPart_priority : IsPart .priority (Declared.parse Priority.parse) priority? where
  own _ _ h := by
    cases h with
    | priority hp => exact ⟨_, hp, rfl⟩
  other f h := by
    cases f with
    | priority => exact absurd rfl h
    | _ => rfl

theorem isPart_deadline : IsPart .deadline (Declared.parse Date.parse) deadline? where
  own _ _ h := by
    cases h with
    | deadline hd => exact ⟨_, hd, rfl⟩
  other f h := by
    cases f with
    | deadline => exact absurd rfl h
    | _ => rfl

theorem isPart_path : IsPart .inclusion (Except.ok : String → Except Reason String) path? where
  own _ _ h := by
    cases h with
    | inclusion => exact ⟨_, rfl, rfl⟩
  other f h := by
    cases f with
    | inclusion => exact absurd rfl h
    | _ => rfl

end Field

/-- Fields declare what is read from the values of the key. -/
theorem map_valuesOf {ε α : Type} {key : Key} {read : String → Except ε α}
    {part? : Field → Option α} (hpart : Field.IsPart key read part?)
    (h : List.Forall₂ Item.Means items fields) :
    (valuesOf key.text (items.map Item.property)).map read =
      (fields.filterMap part?).map .ok := by
  induction h with
  | nil => rfl
  | @cons item f items fields hmeans _ ih =>
    rw [valuesOf_cons]
    by_cases hk : item.key = key
    · obtain ⟨a, ha, hf⟩ := hpart.own _ _ (hmeans.of_key_eq hk)
      rw [if_pos hk, List.filterMap_cons_some hf, List.map_cons, List.map_cons, ih, ha]
    · have hf : part? f = none := hpart.other f fun h => hk (hmeans.key_eq ▸ h)
      rw [if_neg hk, List.filterMap_cons_none hf, ih]

/-- Where a key stands once at most, the first field of the key is the only one. -/
theorem map_valuesOf_once {ε α : Type} {key : Key} {read : String → Except ε α}
    {part? : Field → Option α} (hpart : Field.IsPart key read part?)
    (h : List.Forall₂ Item.Means items fields)
    (honce : (valuesOf key.text (items.map Item.property)).length ≤ 1) :
    (valuesOf key.text (items.map Item.property)).map read =
      (fields.findSome? part?).toList.map .ok := by
  have hmap := map_valuesOf hpart h
  have hlength : (fields.filterMap part?).length ≤ 1 := by
    have hlengths := congrArg List.length hmap
    rw [List.length_map, List.length_map] at hlengths
    omega
  rw [hmap, ← List.head?_filterMap]
  cases hparts : fields.filterMap part? with
  | nil => rfl
  | cons a rest =>
    rw [hparts, List.length_cons] at hlength
    obtain rfl : rest = [] := List.eq_nil_of_length_eq_zero (by omega)
    rfl

theorem declares_of_map {α : Type} {read : String → Except Reason α} {values : List String}
    {o : Option (Declared α)} (h : values.map (Declared.parse read) = o.toList.map .ok) :
    Declares read values (o.getD .unset) := by
  cases o with
  | none => exact .inl ⟨List.map_eq_nil_iff.mp h, rfl⟩
  | some d =>
    obtain ⟨v, hv, hd⟩ := List.map_eq_singleton_iff.mp h
    exact .inr ⟨v, hv, hd⟩

theorem mem_of_forall₂ {ε α β : Type} {f : α → Except ε β} {xs : List α} {ys : List β}
    (h : List.Forall₂ (fun x y => f x = .ok y) xs ys) (y : β) :
    y ∈ ys ↔ ∃ x ∈ xs, f x = .ok y := by
  induction h with
  | nil => simp
  | cons hxy _ ih => simp [ih, hxy, eq_comm]

theorem Field.Means.mem_ids_iff {v : String} {f : Field} (h : Means .depends v f) (id : TaskId) :
    id ∈ f.ids ↔ ∃ w ∈ Text.words v.toList, TaskId.parse (String.ofList w) = .ok id := by
  cases h with
  | depends _ hids => exact mem_of_forall₂ (readIds_eq_ok_iff.mp hids) id

theorem Field.ids_of_ne {f : Field} (h : f.key ≠ .depends) : f.ids = [] := by
  cases f with
  | depends ids => exact absurd rfl h
  | _ => rfl

/-- The dependencies of fields are the words of all values of the key. -/
theorem mem_flatMap_ids
    (h : List.Forall₂ Item.Means items fields) (id : TaskId) :
    id ∈ fields.flatMap Field.ids ↔
      ∃ v ∈ valuesOf Key.depends.text (items.map Item.property), ∃ w ∈ Text.words v.toList,
        TaskId.parse (String.ofList w) = .ok id := by
  induction h with
  | nil => simp [valuesOf]
  | @cons item f items fields hmeans _ ih =>
    rw [List.flatMap_cons, List.mem_append, ih, valuesOf_cons]
    by_cases hk : item.key = .depends
    · rw [if_pos hk, List.exists_mem_cons_iff, (hmeans.of_key_eq hk).mem_ids_iff]
    · have hids : f.ids = [] := Field.ids_of_ne fun h => hk (hmeans.key_eq ▸ h)
      rw [if_neg hk, hids, or_iff_right List.not_mem_nil]

/-- **A record holds what the properties say**, where its fields are read from them. -/
theorem holds_of_means
    (h : List.Forall₂ Item.Means items fields)
    (honce : ∀ key : Key, key.mayRepeat = false →
      (valuesOf key.text (items.map Item.property)).length ≤ 1)
    {notes : String} {location : Location} {r : Record}
    (hr : Record.ofFields? fields notes location = some r) :
    Holds (items.map Item.property) r := by
  obtain ⟨id, hid, rfl⟩ := Option.map_eq_some_iff.mp hr
  have htask := map_valuesOf_once Field.isPart_id h (honce .task rfl)
  rw [hid] at htask
  exact {
    id := List.map_eq_singleton_iff.mp htask
    label := List.map_injective_iff.mpr (fun _ _ => Except.ok.inj)
      (map_valuesOf_once Field.isPart_label h (honce .label rfl))
    status := map_valuesOf_once Field.isPart_status h (honce .status rfl)
    priority := declares_of_map (map_valuesOf_once Field.isPart_priority h (honce .priority rfl))
    deadline := declares_of_map (map_valuesOf_once Field.isPart_deadline h (honce .deadline rfl))
    depends := fun dep => by
      rw [IdSet.mem_ofList]
      exact mem_flatMap_ids h dep }

/-- **Properties that declare a task are read as a record that holds what they say.** -/
theorem readItems_task (opening : Location) (notes : String)
    (h : IsTask (items.map Item.property)) :
    ∃ r, (readItems opening notes items).value = some (.task r) ∧
      Holds (items.map Item.property) r ∧ r.notes = notes ∧ r.location = opening := by
  obtain ⟨htask, ⟨item, hitem, hkey⟩, hsilent⟩ := isTask_iff.mp h
  have hmeans := readFields_means hsilent
  have honce := (readFields_silent_iff_valuesOf.mp hsilent).2
  -- one of the fields declares the identifier, so that there is a record
  have hid := map_valuesOf_once Field.isPart_id hmeans (honce .task rfl)
  cases hfound : (readFields [] items).value.findSome? Field.id? with
  | none =>
    have hvalue : item.value ∈ valuesOf Key.task.text (items.map Item.property) :=
      mem_valuesOf.mpr ⟨item, hitem, hkey, rfl⟩
    rw [hfound, Option.toList_none, List.map_nil, List.map_eq_nil_iff] at hid
    rw [hid] at hvalue
    exact absurd hvalue List.not_mem_nil
  | some id =>
    have hr : (Record.ofFields? (readFields [] items).value notes opening).isSome := by
      rw [Record.ofFields?, hfound]
      rfl
    obtain ⟨r, hr⟩ := Option.isSome_iff_exists.mp hr
    obtain ⟨hnotes, hlocation, -⟩ := Record.mem_of_ofFields? hr
    refine ⟨r, ?_, holds_of_means hmeans honce hr, hnotes, hlocation⟩
    rw [readItems_of_task opening notes htask, value_readTask, hr]
    rfl

/-- **Properties that include files are read as their paths.** -/
theorem readItems_inclusion (opening : Location) (notes : String)
    (h : IsInclusion (items.map Item.property)) :
    (readItems opening notes items).value =
      some (.inclusion ⟨(items.map Item.property).map Prod.snd, opening⟩) := by
  obtain ⟨hne, hkeys, hsilent⟩ := isInclusion_iff.mp h
  have hpaths := map_valuesOf Field.isPart_path (readFields_means hsilent)
  have hall : valuesOf Key.inclusion.text (items.map Item.property) =
      (items.map Item.property).map Prod.snd := by
    refine congrArg (List.map Prod.snd) (List.filter_eq_self.mpr fun p hp => ?_)
    obtain ⟨item, hitem, rfl⟩ := List.mem_map.mp hp
    rw [Item.property, hkeys item hitem]
    exact decide_eq_true rfl
  rw [hall] at hpaths
  have heq := List.map_injective_iff.mpr (fun _ _ => Except.ok.inj) hpaths
  rw [readItems_of_inclusion opening notes hne hkeys, heq]
  rfl

end Means

end TaskOutline
