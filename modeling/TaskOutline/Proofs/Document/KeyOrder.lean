import TaskOutline.Proofs.Document.Accepted
import TaskOutline.Proofs.Document.FrontMatter
import TaskOutline.Proofs.Document.Places

/-! # The order of the lines of a front matter

The grammar of a front matter asks which values a key has, and for most keys that it has
one at most.  So the order of its properties matters for nothing but the paths of a block
that includes files: without such a key, a task is declared in any order or in none
(`IsTask.of_perm`), and what is declared is the same (`Holds.of_perm`).

Since the other lines of the text stay where they are, the whole text is read alike
(`readDocument_reordered`).
-/
namespace TaskOutline

/-! ## Properties -/

section Properties

variable {front front' : List (String × String)} {r r' : Record}

theorem valuesOf_perm (h : front'.Perm front) (key : String) :
    (valuesOf key front').Perm (valuesOf key front) :=
  (h.filter _).map _

/-- The values of a key that stands once at most are the same in any order. -/
theorem valuesOf_eq_of_perm (h : front'.Perm front) {key : String}
    (honce : (valuesOf key front).length ≤ 1) : valuesOf key front' = valuesOf key front := by
  have hperm := valuesOf_perm h key
  cases hvalues : valuesOf key front with
  | nil => exact (hvalues ▸ hperm).eq_nil
  | cons v vs =>
    rw [hvalues] at honce hperm
    have hnil : vs.length = 0 := Nat.le_zero.mp (Nat.le_of_succ_le_succ honce)
    obtain rfl : vs = [] := List.eq_nil_of_length_eq_zero hnil
    exact hperm.eq_singleton

/-- **A task is declared in any order.** -/
theorem IsTask.of_perm (hperm : front'.Perm front) (h : IsTask front) : IsTask front' where
  keys p hp := h.keys p (hperm.mem_iff.mp hp)
  declared := (valuesOf_perm hperm "task").length_eq.trans h.declared
  once key hkey := (valuesOf_perm hperm key).length_eq.trans_le (h.once key hkey)
  values key v hv := h.values key v ((valuesOf_perm hperm key.text).mem_iff.mp hv)

/-- What is declared is the same in any order. -/
theorem Holds.of_perm (hperm : front'.Perm front) (htask : IsTask front) (h : Holds front r) :
    Holds front' r where
  id := by
    rw [valuesOf_eq_of_perm hperm (Nat.le_of_eq htask.declared)]
    exact h.id
  label := by
    rw [valuesOf_eq_of_perm hperm (htask.once "label" (by decide))]
    exact h.label
  status := by
    rw [valuesOf_eq_of_perm hperm (htask.once "status" (by decide))]
    exact h.status
  priority := by
    rw [valuesOf_eq_of_perm hperm (htask.once "priority" (by decide))]
    exact h.priority
  deadline := by
    rw [valuesOf_eq_of_perm hperm (htask.once "deadline" (by decide))]
    exact h.deadline
  depends id := by
    rw [h.depends id]
    refine exists_congr fun v => and_congr_left fun _ => ?_
    exact (valuesOf_perm hperm "depends").mem_iff.symm

theorem Declares.unique {α : Type} {read : String → Except Reason α} {values : List String}
    {d d' : Declared α} (h : Declares read values d) (h' : Declares read values d') : d = d' := by
  rcases h with ⟨hnil, rfl⟩ | ⟨v, hv, hread⟩
  · rcases h' with ⟨-, rfl⟩ | ⟨v', hv', -⟩
    · rfl
    · rw [hnil] at hv'
      cases hv'
  · rcases h' with ⟨hnil, -⟩ | ⟨v', hv', hread'⟩
    · rw [hnil] at hv
      cases hv
    · obtain rfl : v = v' := List.singleton_inj.mp (hv.symm.trans hv')
      exact Except.ok.inj (hread.symm.trans hread')

theorem eq_of_toList_eq {α : Type} {a b : Option α} (h : a.toList = b.toList) : a = b := by
  have hhead := congrArg List.head? h
  rwa [Option.head?_toList, Option.head?_toList] at hhead

/-- **Properties leave no choice of a record** but for its notes and its location. -/
theorem Holds.unique (h : Holds front r) (h' : Holds front r') (hnotes : r.notes = r'.notes)
    (hlocation : r.location = r'.location) : r = r' := by
  have hid : r.id = r'.id := by
    obtain ⟨v, hv, hread⟩ := h.id
    obtain ⟨v', hv', hread'⟩ := h'.id
    obtain rfl : v = v' := List.singleton_inj.mp (hv.symm.trans hv')
    exact Except.ok.inj (hread.symm.trans hread')
  have hlabel : r.label = r'.label := eq_of_toList_eq (h.label.symm.trans h'.label)
  have hstatus : r.status = r'.status := by
    have hmap := h.status.symm.trans h'.status
    exact eq_of_toList_eq (List.map_injective_iff.mpr (fun _ _ => Except.ok.inj) hmap)
  have hpriority := h.priority.unique h'.priority
  have hdeadline := h.deadline.unique h'.deadline
  have hdepends : r.depends = r'.depends :=
    IdSet.ext fun id => (h.depends id).trans (h'.depends id).symm
  cases r
  cases r'
  exact (Record.mk.injEq ..).mpr
    ⟨hid, hlabel, hstatus, hpriority, hdeadline, hdepends, hnotes, hlocation⟩

end Properties

/-! ## Sections -/

/-- None of the lines has the key of an include block. -/
def WithoutInclude (front : List (List Char)) : Prop := ∀ l ∈ front, (propertyOf l).1 ≠ "include"

namespace Section

variable (origin : String) {s : Section} {front : List (List Char)}

theorem properties_perm (hperm : front.Perm s.front) :
    ({ s with front := front } : Section).properties.Perm s.properties :=
  (hperm.filter _).map propertyOf

theorem not_isInclusion (hkeys : WithoutInclude s.front) : ¬ IsInclusion s.properties := by
  intro h
  obtain ⟨p, hp⟩ := List.exists_mem_of_ne_nil _ h.ne_nil
  obtain ⟨l, hl, rfl⟩ := List.mem_map.mp hp
  exact hkeys l (List.mem_of_mem_filter hl) (h.files _ hp).1

/-- A section of no include block declares a task, or is left out. -/
theorem value_read_eq_none (hkeys : WithoutInclude s.front) (htask : ¬ IsTask s.properties) :
    (s.read origin).value = none := by
  have hsome : ¬ (s.read origin).value.isSome := by
    rw [(s.readByGrammar origin).isSome_iff]
    exact not_or.mpr ⟨htask, not_isInclusion hkeys⟩
  simpa using hsome

theorem value_read_cases (hkeys : WithoutInclude s.front) :
    (∃ r, (s.read origin).value = some (.task r)) ∨ (s.read origin).value = none := by
  by_cases htask : IsTask s.properties
  · obtain ⟨r, hr, -⟩ := s.value_read_of_isTask origin htask
    exact .inl ⟨r, hr⟩
  · exact .inr (value_read_eq_none origin hkeys htask)

/-- **A section is read alike with its lines in any order.** -/
theorem value_read_of_perm (hperm : front.Perm s.front) (hkeys : WithoutInclude s.front) :
    (({ s with front := front } : Section).read origin).value = (s.read origin).value := by
  have hkeys' : WithoutInclude front := fun l hl => hkeys l (hperm.mem_iff.mp hl)
  have hproperties := properties_perm hperm
  by_cases htask : IsTask s.properties
  · obtain ⟨r, hr, hholds, hnotes, hlocation⟩ := s.value_read_of_isTask origin htask
    obtain ⟨r', hr', hholds', hnotes', hlocation'⟩ :=
      value_read_of_isTask origin _ (htask.of_perm hproperties)
    have hsame : r' = r := hholds'.unique (hholds.of_perm hproperties htask)
      (hnotes'.trans hnotes.symm) (hlocation'.trans hlocation.symm)
    rw [hr', hr, hsame]
  · have htask' : ¬ IsTask ({ s with front := front } : Section).properties := fun h =>
      htask (h.of_perm hproperties.symm)
    rw [value_read_eq_none origin hkeys htask, value_read_eq_none origin hkeys' htask']

end Section

/-! ## Texts -/

/-- A task is read from the block that opens on line `n`. -/
def TaskAt (origin text : String) (n : Nat) (r : Record) : Prop :=
  Block.task r ∈ (readDocument origin text).value ∧ r.location = ⟨origin, n⟩

/-- Nothing is read from the block that opens on line `n`, and an error is reported on one
of the `k` lines from there on. -/
structure DroppedAt (origin text : String) (n k : Nat) : Prop where
  absent : ∀ block ∈ (readDocument origin text).value, block.location ≠ ⟨origin, n⟩
  reported : ∃ d ∈ (readDocument origin text).log, d.severity = .error ∧
    ∃ l, d.location = some l ∧ l.Within origin n k

/-- The two texts are read alike: they have the same blocks, and the block that opens on line
`n` is the same task in both, or left out of both with an error on one of its lines. -/
structure ReadAlike (origin text text' : String) (n k : Nat) : Prop where
  value : (readDocument origin text').value = (readDocument origin text).value
  block : (∃ r, TaskAt origin text n r ∧ TaskAt origin text' n r) ∨
    DroppedAt origin text n k ∧ DroppedAt origin text' n k

section Texts

variable {origin text text' : String} {s : Section} {earlier later : List Section}

theorem taskAt_of_mem (hs : s ∈ (Layout.ofText text).sections) {r : Record}
    (hread : (s.read origin).value = some (.task r)) : TaskAt origin text s.line r := by
  refine ⟨?_, Section.location_of_read hread⟩
  rw [value_readDocument]
  exact List.mem_filterMap.mpr ⟨s, hs, hread⟩

/-- No block opens where no section does, or one that yields none. -/
theorem location_ne_of_sections {n : Nat}
    (h : ∀ t ∈ (Layout.ofText text).sections, t.line = n → (t.read origin).value = none) :
    ∀ block ∈ (readDocument origin text).value, block.location ≠ ⟨origin, n⟩ := by
  intro block hblock hlocation
  rw [value_readDocument] at hblock
  obtain ⟨t, ht, hread⟩ := List.mem_filterMap.mp hblock
  have hline : t.line = n := by
    rw [Section.location_of_read hread] at hlocation
    exact congrArg Location.line hlocation
  rw [h t ht hline] at hread
  cases hread

theorem droppedAt_of_sections (hsections : (Layout.ofText text).sections = earlier ++ s :: later)
    (hearlier : ∀ t ∈ earlier, t.line < s.line) (hlater : ∀ t ∈ later, s.line < t.line)
    (hread : (s.read origin).value = none) :
    DroppedAt origin text s.line (s.front.length + 1) where
  absent := by
    refine location_ne_of_sections fun t ht hline => ?_
    rw [hsections, List.mem_append, List.mem_cons] at ht
    rcases ht with ht | rfl | ht
    · exact absurd hline (Nat.ne_of_lt (hearlier t ht))
    · exact hread
    · exact absurd hline (Nat.ne_of_gt (hlater t ht))
  reported := by
    obtain ⟨d, hd, herror, hplace⟩ := (s.readByGrammar origin).reported hread
    refine ⟨d, ?_, herror, hplace⟩
    rw [log_readDocument, hsections, List.flatMap_append, List.flatMap_cons]
    simp [hd]

theorem droppedAt_of_unterminated {n : Nat} (k : Nat)
    (hopen : (Layout.ofText text).unterminated = some n)
    (hearlier : ∀ t ∈ (Layout.ofText text).sections, t.line < n) :
    DroppedAt origin text n (k + 1) where
  absent := location_ne_of_sections fun t ht hline =>
    absurd hline (Nat.ne_of_lt (hearlier t ht))
  reported := by
    refine ⟨unterminatedAt origin n, ?_, rfl, ⟨origin, n⟩, rfl, .first origin n k⟩
    rw [log_readDocument, hopen]
    exact List.mem_append_right _ (List.mem_singleton_self _)

/-- **Texts are read alike** that differ in the order of the lines in one section. -/
theorem readAlike_of_sections {front : List (List Char)}
    (hsections : (Layout.ofText text).sections = earlier ++ s :: later)
    (hsections' : (Layout.ofText text').sections = earlier ++ { s with front := front } :: later)
    (hearlier : ∀ t ∈ earlier, t.line < s.line) (hlater : ∀ t ∈ later, s.line < t.line)
    (hkeys : WithoutInclude s.front) (hperm : front.Perm s.front) :
    ReadAlike origin text text' s.line (s.front.length + 1) where
  value := by
    rw [value_readDocument, value_readDocument, hsections, hsections', List.filterMap_append,
      List.filterMap_append, List.filterMap_cons, List.filterMap_cons,
      Section.value_read_of_perm origin hperm hkeys]
  block := by
    have hsame := Section.value_read_of_perm origin hperm hkeys
    rcases Section.value_read_cases origin hkeys with ⟨r, hr⟩ | hnone
    · have hmem : s ∈ (Layout.ofText text).sections := by
        rw [hsections]
        exact List.mem_append_right _ List.mem_cons_self
      have hmem' : { s with front := front } ∈ (Layout.ofText text').sections := by
        rw [hsections']
        exact List.mem_append_right _ List.mem_cons_self
      exact .inl ⟨r, taskAt_of_mem hmem hr, taskAt_of_mem hmem' (hsame.trans hr)⟩
    · rw [← hperm.length_eq]
      refine .inr ⟨?_, droppedAt_of_sections hsections' hearlier hlater (hsame.trans hnone)⟩
      rw [hperm.length_eq]
      exact droppedAt_of_sections hsections hearlier hlater hnone

/-- Texts are read alike that differ in what follows a fence without a partner. -/
theorem readAlike_of_unterminated {n : Nat} (k : Nat)
    (hsections : (Layout.ofText text').sections = (Layout.ofText text).sections)
    (hopen : (Layout.ofText text).unterminated = some n)
    (hopen' : (Layout.ofText text').unterminated = some n)
    (hearlier : ∀ t ∈ (Layout.ofText text).sections, t.line < n) :
    ReadAlike origin text text' n (k + 1) where
  value := by rw [value_readDocument, value_readDocument, hsections]
  block := .inr ⟨droppedAt_of_unterminated k hopen hearlier,
    droppedAt_of_unterminated k hopen' (hsections ▸ hearlier)⟩

end Texts

/-- **A text is read alike with the lines of a front matter in any order**, if none of them
has the key of an include block. -/
theorem readDocument_reordered (origin : String) {text : String} {n : Nat}
    {front front' : List (List Char)} (hfront : IsFrontMatter text n front)
    (hkeys : ∀ l ∈ front, (propertyOf l).1 ≠ "include") (hperm : front'.Perm front) :
    ReadAlike origin text (replaceLines text n front.length front') n (front.length + 1) := by
  obtain ⟨hends, hplain, before, opening, after, hlines, rfl, heven, hopening, hafter⟩ := hfront
  have hlines' := lines_replaceLines hlines hends hperm
  have hplain' : ∀ l ∈ front', isFence l = false := fun l hl => hplain l (hperm.mem_iff.mp hl)
  -- the sections before it open on the lines before it
  have hearlier : ∀ t ∈ (Layout.outside 1 before).sections, t.line < before.length + 1 :=
    fun t ht => Nat.add_comm 1 _ ▸ (Layout.line_of_mem_outside 1 before t ht).2
  cases after with
  | nil =>
    rw [List.append_nil] at hlines hlines'
    have hlayout := Layout.outside_unclosed heven hopening hplain
    have hlayout' := Layout.outside_unclosed heven hopening hplain'
    rw [← hlines] at hlayout
    rw [← hlines'] at hlayout'
    refine readAlike_of_unterminated _ ?_ (congrArg Layout.unterminated hlayout)
      (congrArg Layout.unterminated hlayout') ?_
    · exact (congrArg Layout.sections hlayout').trans (congrArg Layout.sections hlayout).symm
    · rw [Layout.ofText, hlayout]
      exact hearlier
  | cons closing rest =>
    have hclosing : isFence closing = true := hafter closing rfl
    have hlayout := Layout.outside_closed heven hopening hplain hclosing rest
    have hlayout' := Layout.outside_closed heven hopening hplain' hclosing rest
    rw [← hlines] at hlayout
    rw [← hlines', hperm.length_eq] at hlayout'
    refine readAlike_of_sections (congrArg Layout.sections hlayout)
      (congrArg Layout.sections hlayout') hearlier (fun t ht => ?_) hkeys hperm
    have hge := (Layout.line_of_mem_outside _ rest t ht).1
    show before.length + 1 < t.line
    omega

/-- The lines of a front matter in which the task comes late, between its dependencies. -/
def lateTask : List (List Char) :=
  ["depends 3\n".toList, "\n".toList, "label Book\n".toList, "task 1\n".toList,
    "depends 2\n".toList]

/-- A text with this front matter. -/
def lateTaskText : String :=
  "Head\n---\ndepends 3\n\nlabel Book\ntask 1\ndepends 2\n---\nNotes\n"

/-- The lines may as well come the other way round. -/
theorem readDocument_reordered_lateTask :
    IsFrontMatter lateTaskText 2 lateTask ∧
      (∀ l ∈ lateTask, (propertyOf l).1 ≠ "include") ∧ lateTask.reverse.Perm lateTask ∧
      replaceLines lateTaskText 2 5 lateTask.reverse =
        "Head\n---\ndepends 2\ntask 1\nlabel Book\n\ndepends 3\n---\nNotes\n" ∧
      (readDocument "a.md" (replaceLines lateTaskText 2 5 lateTask.reverse)).value =
        [.task { Record.bare ⟨[1], by decide, by decide⟩ ⟨"a.md", 2⟩ with
          label := some "Book"
          depends := .ofList [⟨[2], by decide, by decide⟩, ⟨[3], by decide, by decide⟩]
          notes := "Notes\n" }] := by
  have hfront : IsFrontMatter lateTaskText 2 lateTask := by
    refine ⟨by decide, by decide, ["Head\n".toList], "---\n".toList,
      ["---\n".toList, "Notes\n".toList], rfl, rfl, rfl, rfl, ?_⟩
    intro l hl
    cases hl
    rfl
  have hkeys : ∀ l ∈ lateTask, (propertyOf l).1 ≠ "include" := by decide
  have hperm : lateTask.reverse.Perm lateTask := List.reverse_perm lateTask
  refine ⟨hfront, hkeys, hperm, rfl, ?_⟩
  have halike := readDocument_reordered "a.md" hfront hkeys hperm
  rw [show lateTask.length = 5 from rfl] at halike
  rw [halike.value]
  rfl

end TaskOutline
