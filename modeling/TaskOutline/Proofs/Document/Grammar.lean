import Mathlib.Data.List.Nodup
import TaskOutline.Proofs.Document.Fields
import TaskOutline.Proofs.Document.Reports

/-! # The grammar of a front matter

A front matter is a list of properties, each a key and a value.  It declares a task
(`IsTask`), or it includes files (`IsInclusion`), or it is neither; that is decided by
its keys and by each value alone.  A section yields a block in the first two cases, and
then reports no error; in the third it reports one (`Section.ReadByGrammar`).

Readers report as they go, and a block comes out when they have said nothing
(`value_readBlock`).  So the proof is about silence: reading fields says nothing exactly
when each value is accepted and no key stands twice that must not
(`readFields_silent_iff`), and silence passes from the fields to the items, the block and
the section.
-/
namespace TaskOutline

/-! ## Front matters -/

/-- A line as a property: the key before its first blank, and the trimmed value after. -/
def propertyOf (line : List Char) : String × String :=
  (String.ofList (Text.cutAtBlank (Text.trim line)).1,
    String.ofList (Text.trim (Text.cutAtBlank (Text.trim line)).2))

/-- The properties of a section: the lines of its front matter that are not blank. -/
def Section.properties (s : Section) : List (String × String) :=
  (s.front.filter fun line => Text.trim line ≠ []).map propertyOf

/-- The values that properties give for a key, in order. -/
def valuesOf (key : String) (front : List (String × String)) : List String :=
  (front.filter fun p => p.1 = key).map Prod.snd

/-- The value can stand after the key. -/
def Key.Accepts : Key → String → Prop
  | .task, v => ∃ id, TaskId.parse v = .ok id
  | .label, v => v ≠ ""
  | .status, v => ∃ s, Status.parse v = .ok s
  | .priority, v => ∃ p, Declared.parse Priority.parse v = .ok p
  | .deadline, v => ∃ d, Declared.parse Date.parse v = .ok d
  | .depends, v => v ≠ "" ∧ ∀ w ∈ Text.words v.toList, ∃ id, TaskId.parse (String.ofList w) = .ok id
  | .inclusion, v => v ≠ ""

/-- The properties declare a task. -/
structure IsTask (front : List (String × String)) : Prop where
  keys : ∀ p ∈ front, p.1 ∈ ["task", "label", "status", "priority", "deadline", "depends"]
  declared : (valuesOf "task" front).length = 1
  once : ∀ key ∈ ["label", "status", "priority", "deadline"], (valuesOf key front).length ≤ 1
  values : ∀ (key : Key), ∀ v ∈ valuesOf key.text front, key.Accepts v

/-- The properties include files. -/
structure IsInclusion (front : List (String × String)) : Prop where
  ne_nil : front ≠ []
  files : ∀ p ∈ front, p.1 = "include" ∧ p.2 ≠ ""

/-! ## Values -/

theorem mapM_eq_ok_iff {ε α β : Type} {f : α → Except ε β} {xs : List α} {ys : List β} :
    xs.mapM f = .ok ys ↔ List.Forall₂ (fun x y => f x = .ok y) xs ys := by
  induction xs generalizing ys with
  | nil => cases ys <;> simp [pure, Except.pure]
  | cons x xs ih =>
    rw [List.mapM_cons]
    constructor
    · intro h
      obtain ⟨y, hy, hrest⟩ := Except.bind_eq_ok h
      obtain ⟨ys', hys, hcons⟩ := Except.bind_eq_ok hrest
      obtain rfl : y :: ys' = ys := Except.ok.inj hcons
      exact .cons hy (ih.mp hys)
    · intro h
      cases h with
      | cons hy hys =>
        rw [hy, ih.mpr hys]
        rfl

/-- A list of identifiers says all its words, and each is one. -/
theorem Field.readIds_eq_ok_iff {v : String} {ids : List TaskId} :
    readIds v = .ok ids ↔
      List.Forall₂ (fun w id => TaskId.parse (String.ofList w) = .ok id)
        (Text.words v.toList) ids :=
  mapM_eq_ok_iff

theorem forall_exists_iff_forall₂ {α β : Type} {R : α → β → Prop} {xs : List α} :
    (∀ x ∈ xs, ∃ y, R x y) ↔ ∃ ys, List.Forall₂ R xs ys := by
  induction xs with
  | nil => simp
  | cons x xs ih =>
    rw [List.forall_mem_cons, ih]
    constructor
    · rintro ⟨⟨y, hy⟩, ys, hys⟩
      exact ⟨y :: ys, .cons hy hys⟩
    · rintro ⟨_, _ | ⟨hy, hys⟩⟩
      exact ⟨⟨_, hy⟩, _, hys⟩

/-- A value is accepted when it says something. -/
theorem Key.accepts_iff {key : Key} {v : String} : key.Accepts v ↔ ∃ f, Field.Means key v f := by
  constructor
  · intro h
    cases key with
    | task =>
      obtain ⟨id, hid⟩ := h
      exact ⟨_, .task hid⟩
    | label => exact ⟨_, .label h⟩
    | status =>
      obtain ⟨s, hs⟩ := h
      exact ⟨_, .status hs⟩
    | priority =>
      obtain ⟨p, hp⟩ := h
      exact ⟨_, .priority hp⟩
    | deadline =>
      obtain ⟨d, hd⟩ := h
      exact ⟨_, .deadline hd⟩
    | depends =>
      obtain ⟨ids, hids⟩ := forall_exists_iff_forall₂.mp h.2
      exact ⟨_, .depends h.1 (Field.readIds_eq_ok_iff.mpr hids)⟩
    | inclusion => exact ⟨_, .inclusion h⟩
  · rintro ⟨f, hmeans⟩
    cases hmeans with
    | task hid => exact ⟨_, hid⟩
    | label hne => exact hne
    | status hs => exact ⟨_, hs⟩
    | priority hp => exact ⟨_, hp⟩
    | deadline hd => exact ⟨_, hd⟩
    | depends hne hids =>
      exact ⟨hne, forall_exists_iff_forall₂.mpr ⟨_, Field.readIds_eq_ok_iff.mp hids⟩⟩
    | inclusion hne => exact hne

/-! ## Items -/

namespace Key

theorem text_injective : Function.Injective Key.text := by
  intro a b h
  have hsome : some a = some b := by rw [← Key.ofText?_text a, ← Key.ofText?_text b, h]
  exact Option.some.inj hsome

theorem ofText?_eq_some_iff {s : String} {key : Key} : ofText? s = some key ↔ s = key.text := by
  constructor
  · intro h
    unfold ofText? at h
    have hfound := List.find?_some h
    exact (eq_of_beq hfound).symm
  · rintro rfl
    exact ofText?_text key

end Key

/-- The property that an item is. -/
def Item.property (item : Item) : String × String := (item.key.text, item.value)

/-- The field is what the item means. -/
def Item.Means (item : Item) (f : Field) : Prop := Field.Means item.key item.value f

theorem Item.Means.of_key_eq {item : Item} {f : Field} {key : Key} (h : item.Means f)
    (hkey : item.key = key) : Field.Means key item.value f := by
  rw [← hkey]
  exact h

theorem mem_valuesOf {key : Key} {items : List Item} {v : String} :
    v ∈ valuesOf key.text (items.map Item.property) ↔
      ∃ item ∈ items, item.key = key ∧ item.value = v := by
  unfold valuesOf
  simp only [List.mem_map, List.mem_filter, decide_eq_true_eq]
  constructor
  · rintro ⟨_, ⟨⟨item, hitem, rfl⟩, hkey⟩, rfl⟩
    exact ⟨item, hitem, Key.text_injective hkey, rfl⟩
  · rintro ⟨item, hitem, rfl, rfl⟩
    exact ⟨_, ⟨⟨item, hitem, rfl⟩, rfl⟩, rfl⟩

theorem valuesOf_cons (item : Item) (items : List Item) (key : Key) :
    valuesOf key.text ((item :: items).map Item.property) =
      if item.key = key then item.value :: valuesOf key.text (items.map Item.property)
      else valuesOf key.text (items.map Item.property) := by
  unfold valuesOf
  rw [List.map_cons, List.filter_cons]
  by_cases h : item.key = key
  · rw [if_pos h, if_pos (by simp [Item.property, h])]
    rfl
  · have htext : item.key.text ≠ key.text := fun heq => h (Key.text_injective heq)
    rw [if_neg h, if_neg (by simp [Item.property, htext])]

/-- The keys that stand in items and must not stand twice. -/
def singularKeys (items : List Item) : List Key := (items.map Item.key).filter (!·.mayRepeat)

theorem count_singularKeys (items : List Item) {key : Key} (h : key.mayRepeat = false) :
    (singularKeys items).count key = (valuesOf key.text (items.map Item.property)).length := by
  unfold singularKeys
  rw [List.count_filter (by simp [h])]
  induction items with
  | nil => rfl
  | cons item rest ih =>
    rw [valuesOf_cons, List.map_cons, List.count_cons, ih]
    by_cases hkey : item.key = key
    · rw [if_pos hkey, if_pos (by simp [hkey]), List.length_cons]
    · rw [if_neg hkey, if_neg (by simp [hkey]), Nat.add_zero]

theorem nodup_singularKeys_iff (items : List Item) :
    (singularKeys items).Nodup ↔ ∀ key : Key, key.mayRepeat = false →
      (valuesOf key.text (items.map Item.property)).length ≤ 1 := by
  rw [List.nodup_iff_count_le_one]
  refine forall_congr' fun key => ?_
  cases h : key.mayRepeat with
  | false => simp [count_singularKeys items h]
  | true =>
    have hnot : key ∉ singularKeys items := by simp [singularKeys, h]
    simp [List.count_eq_zero_of_not_mem hnot]

theorem singularKeys_cons (item : Item) (items : List Item) :
    singularKeys (item :: items) =
      if item.key.mayRepeat then singularKeys items else item.key :: singularKeys items := by
  unfold singularKeys
  rw [List.map_cons, List.filter_cons]
  cases item.key.mayRepeat <;> rfl

/-- **Reading fields is silent** when each value is accepted, and no key stands twice, or
in `seen`, that must not. -/
theorem readFields_silent_iff (seen : List Key) (items : List Item) :
    (readFields seen items).log = [] ↔ (∀ item ∈ items, item.key.Accepts item.value) ∧
      (singularKeys items).Nodup ∧ ∀ key ∈ singularKeys items, key ∉ seen := by
  induction items generalizing seen with
  | nil => simp [readFields, singularKeys]
  | cons item rest ih =>
    rw [List.forall_mem_cons, singularKeys_cons]
    by_cases hrep : item.key ∈ seen ∧ !item.key.mayRepeat
    · -- the key stands in `seen`: it is reported, and it must not stand there
      rw [readFields_of_repeat item rest hrep, if_neg (by simpa using hrep.2)]
      simp [hrep.1]
    cases hread : Field.read item.key item.value with
    | error problem =>
      have hrefused : ¬ item.key.Accepts item.value := by
        rw [Key.accepts_iff]
        rintro ⟨f, hf⟩
        rw [← Field.read_eq_ok_iff, hread] at hf
        cases hf
      rw [readFields_of_error item rest hrep hread]
      simp [hrefused]
    | ok f =>
      have haccepted : item.key.Accepts item.value :=
        Key.accepts_iff.mpr ⟨f, Field.read_eq_ok_iff.mp hread⟩
      rw [readFields_of_ok item rest hrep hread, Logged.log_bind, Logged.log_pure, List.append_nil,
        ih]
      cases hmay : item.key.mayRepeat with
      | true =>
        -- a key that may stand twice is none of those that must not
        have hnot : ∀ key ∈ singularKeys rest, key ≠ item.key := by
          rintro key hkey rfl
          simp [singularKeys, hmay] at hkey
        simp +contextual [haccepted, hnot]
      | false =>
        have hnew : item.key ∉ seen := fun h => hrep ⟨h, by simp [hmay]⟩
        have hfirst : (∀ key ∈ singularKeys rest, key ∉ item.key :: seen) ↔
            item.key ∉ singularKeys rest ∧ ∀ key ∈ singularKeys rest, key ∉ seen := by
          simp only [List.mem_cons, not_or, forall_and, List.forall_mem_ne']
        rw [hfirst, if_neg Bool.false_ne_true, List.nodup_cons, List.forall_mem_cons]
        simp only [haccepted, hnew, true_and, not_false_eq_true]
        tauto

/-- What is read silently is what the items say. -/
theorem readFields_means {seen : List Key} {items : List Item}
    (h : (readFields seen items).log = []) :
    List.Forall₂ Item.Means items (readFields seen items).value := by
  induction items generalizing seen with
  | nil => exact .nil
  | cons item rest ih =>
    by_cases hrep : item.key ∈ seen ∧ !item.key.mayRepeat
    · rw [readFields_of_repeat item rest hrep] at h
      cases h
    cases hread : Field.read item.key item.value with
    | error problem =>
      rw [readFields_of_error item rest hrep hread] at h
      cases h
    | ok f =>
      rw [readFields_of_ok item rest hrep hread] at h ⊢
      exact .cons (Field.read_eq_ok_iff.mp hread) (ih (List.append_eq_nil_iff.mp h).1)

/-! ## Silence and the grammar -/

section Silence

variable {items : List Item}

theorem forall_accepts_iff : (∀ item ∈ items, item.key.Accepts item.value) ↔
    ∀ (key : Key), ∀ v ∈ valuesOf key.text (items.map Item.property), key.Accepts v := by
  constructor
  · intro h key v hv
    obtain ⟨item, hitem, rfl, rfl⟩ := mem_valuesOf.mp hv
    exact h item hitem
  · intro h item hitem
    exact h item.key item.value (mem_valuesOf.mpr ⟨item, hitem, rfl, rfl⟩)

/-- The fields of a block are read silently when values and keys are as they must be. -/
theorem readFields_silent_iff_valuesOf : (readFields [] items).log = [] ↔
    (∀ (key : Key), ∀ v ∈ valuesOf key.text (items.map Item.property), key.Accepts v) ∧
      ∀ key : Key, key.mayRepeat = false →
        (valuesOf key.text (items.map Item.property)).length ≤ 1 := by
  rw [readFields_silent_iff, forall_accepts_iff, nodup_singularKeys_iff]
  simp

theorem isTask_iff : IsTask (items.map Item.property) ↔
    (∀ item ∈ items, item.key ≠ .inclusion) ∧ (∃ item ∈ items, item.key = .task) ∧
      (readFields [] items).log = [] := by
  rw [readFields_silent_iff_valuesOf]
  constructor
  · intro h
    refine ⟨fun item hitem hkey => ?_, ?_, h.values, fun key hsingular => ?_⟩
    · have hmem : item.key.text ∈ _ := h.keys _ (List.mem_map.mpr ⟨item, hitem, rfl⟩)
      rw [hkey] at hmem
      exact absurd hmem (by decide)
    · obtain ⟨v, hv⟩ := List.length_eq_one_iff.mp h.declared
      have hmem : v ∈ valuesOf Key.task.text (items.map Item.property) :=
        hv ▸ List.mem_singleton_self v
      obtain ⟨item, hitem, hkey, -⟩ := mem_valuesOf.mp hmem
      exact ⟨item, hitem, hkey⟩
    · cases key with
      | task => exact Nat.le_of_eq h.declared
      | label => exact h.once "label" (by decide)
      | status => exact h.once "status" (by decide)
      | priority => exact h.once "priority" (by decide)
      | deadline => exact h.once "deadline" (by decide)
      | depends | inclusion => cases hsingular
  · rintro ⟨hkeys, ⟨item, hitem, htask⟩, hvalues, honce⟩
    refine ⟨fun p hp => ?_, Nat.le_antisymm (honce .task rfl) ?_, fun key hkey => ?_, hvalues⟩
    · obtain ⟨i, hi, rfl⟩ := List.mem_map.mp hp
      have hne := hkeys i hi
      show i.key.text ∈ _
      cases hkey : i.key with
      | inclusion => exact absurd hkey hne
      | _ => decide
    · exact List.length_pos_of_mem (mem_valuesOf.mpr ⟨item, hitem, htask, rfl⟩)
    · simp only [List.mem_cons, List.not_mem_nil, or_false] at hkey
      rcases hkey with rfl | rfl | rfl | rfl
      · exact honce .label rfl
      · exact honce .status rfl
      · exact honce .priority rfl
      · exact honce .deadline rfl

theorem isInclusion_iff : IsInclusion (items.map Item.property) ↔
    items ≠ [] ∧ (∀ item ∈ items, item.key = .inclusion) ∧ (readFields [] items).log = [] := by
  rw [readFields_silent_iff]
  constructor
  · intro h
    have hfile : ∀ item ∈ items, item.key = .inclusion ∧ item.value ≠ "" := by
      intro item hitem
      obtain ⟨hkey, hvalue⟩ := h.files item.property (List.mem_map.mpr ⟨item, hitem, rfl⟩)
      exact ⟨Key.text_injective hkey, hvalue⟩
    have hnone : singularKeys items = [] := by
      refine List.filter_eq_nil_iff.mpr fun key hkey => ?_
      obtain ⟨item, hitem, rfl⟩ := List.mem_map.mp hkey
      rw [(hfile item hitem).1]
      decide
    refine ⟨fun hnil => h.ne_nil (by rw [hnil]; rfl), fun item hitem => (hfile item hitem).1,
      fun item hitem => ?_, by simp [hnone], by simp [hnone]⟩
    rw [(hfile item hitem).1]
    exact (hfile item hitem).2
  · rintro ⟨hne, hkeys, haccepted, -⟩
    refine ⟨by simpa using hne, fun p hp => ?_⟩
    obtain ⟨item, hitem, rfl⟩ := List.mem_map.mp hp
    have haccepts := haccepted item hitem
    rw [hkeys item hitem] at haccepts
    exact ⟨congrArg Key.text (hkeys item hitem), haccepts⟩

variable (opening : Location) (notes : String)

/-- **The items of a block are read silently** when they declare a task or include files. -/
theorem readItems_silent_iff : (readItems opening notes items).log = [] ↔
    IsTask (items.map Item.property) ∨ IsInclusion (items.map Item.property) := by
  rw [isTask_iff, isInclusion_iff]
  rcases readItems_cases opening notes items with ⟨htask, heq⟩ | ⟨hne, hall, heq⟩ |
    ⟨⟨item, hitem, hkey⟩, ⟨other, hother, hotherKey⟩, heq⟩
  · -- no item includes a file: the fields have to be silent, and one of them the task
    have hnot : ¬ (items ≠ [] ∧ (∀ item ∈ items, item.key = .inclusion) ∧
        (readFields [] items).log = []) := by
      rintro ⟨hne, hall, -⟩
      obtain ⟨item, hitem⟩ := List.exists_mem_of_ne_nil items hne
      exact htask item hitem (hall item hitem)
    rw [heq, log_readTask, List.append_eq_nil_iff, or_iff_left hnot]
    constructor
    · rintro ⟨hfields, hlast⟩
      refine ⟨htask, ?_, hfields⟩
      by_contra hnone
      rw [if_pos fun item hitem hkey => hnone ⟨item, hitem, hkey⟩] at hlast
      cases hlast
    · rintro ⟨-, ⟨item, hitem, hkey⟩, hfields⟩
      exact ⟨hfields, if_neg fun h => h item hitem hkey⟩
  · -- all items include files: the fields have to be silent
    obtain ⟨item, hitem⟩ := List.exists_mem_of_ne_nil items hne
    rw [heq, or_iff_right fun h => h.1 item hitem (hall item hitem)]
    show (readFields [] items).log ++ [] = [] ↔ _
    rw [List.append_nil]
    exact ⟨fun h => ⟨hne, hall, h⟩, fun h => h.2.2⟩
  · -- some do and some do not: that is reported
    rw [heq]
    refine ⟨fun h => absurd h (List.cons_ne_nil _ _), ?_⟩
    rintro (⟨htask, -⟩ | ⟨-, hall, -⟩)
    · exact absurd hkey (htask item hitem)
    · exact absurd (hall other hother) hotherKey

end Silence

end TaskOutline
