import TaskOutline.Proofs.Document.Drafts

/-! # What is reported of a text

A section reports what is wrong with its front matter, and that its notes belong to
nothing.  Each of these reports stands on one of its lines, from the opening fence to
the closing one, and says something else than what is reported of the text around the
sections (`Section.Owns`).  A document says what its sections say one after the other,
with a warning of a preamble before it and the error of a fence without a partner after
it (`log_readDocument`).

The lemmas follow the readers from a value to a document, and each says what the reader
reports and where.
-/
namespace TaskOutline

namespace Logged

variable {α β : Type} {P : Diagnostic → Prop}

/-- Every diagnostic that comes with a value has a property. -/
def Reports (P : Diagnostic → Prop) (x : Logged α) : Prop := ∀ d ∈ x.log, P d

@[simp] theorem reports_pure (a : α) : (pure a : Logged α).Reports P :=
  fun _ h => absurd h List.not_mem_nil

@[simp] theorem reports_bind (x : Logged α) (f : α → Logged β) :
    (x >>= f).Reports P ↔ x.Reports P ∧ (f x.value).Reports P := by
  simp [Reports, or_imp, forall_and]

@[simp] theorem reports_error (location : Location) (problem : Problem) :
    (error location problem).Reports P ↔ P ⟨.error, some location, problem⟩ := by
  simp [Reports]

@[simp] theorem reports_warn (location : Location) (problem : Problem) :
    (warn location problem).Reports P ↔ P ⟨.warning, some location, problem⟩ := by
  simp [Reports]

theorem Reports.imp {Q : Diagnostic → Prop} {x : Logged α} (hx : x.Reports P)
    (h : ∀ d, P d → Q d) : x.Reports Q :=
  fun d hd => h d (hx d hd)

end Logged

/-- A problem that a section can have. -/
def Problem.ofSection : Problem → Bool
  | .malformed .mixedBlock | .malformed (.duplicateProperty _) | .malformed .missingTask => true
  | .unknownProperty _ | .invalidIdentifier _ | .invalidValue _ _ _ => true
  | .ignored .blankLine | .ignored .afterInclude => true
  | _ => false

/-! ## Values that are refused -/

/-- A reader that refuses only for problems of a section. -/
def Refuses {α : Type} (x : Except Problem α) : Prop :=
  ∀ problem, x = .error problem → problem.ofSection = true

namespace Refuses

variable {α β : Type} {x : Except Problem α}

theorem mapError {ε : Type} (x : Except ε α) {f : ε → Problem}
    (hf : ∀ e, (f e).ofSection = true) : Refuses (x.mapError f) := by
  intro problem h
  cases x with
  | ok a => cases h
  | error e =>
    obtain rfl : f e = problem := Except.error.inj h
    exact hf e

theorem map (hx : Refuses x) (f : α → β) : Refuses (x.map f) := by
  intro problem h
  cases x with
  | ok a => cases h
  | error e => exact hx problem (congrArg Except.error (Except.error.inj h))

theorem bind {next : α → Except Problem β} (hx : Refuses x) (hnext : ∀ a, Refuses (next a)) :
    Refuses (x >>= next) := by
  intro problem h
  cases x with
  | ok a => exact hnext a problem h
  | error e => exact hx problem (congrArg Except.error (Except.error.inj h))

end Refuses

/-- A value that is refused is a problem of the section. -/
theorem Field.refuses_read (key : Key) (value : String) : Refuses (Field.read key value) := by
  have hvalue : ∀ {α : Type} (read : String → Except Reason α),
      Refuses (readValue key read value) :=
    fun read => Refuses.mapError (read value) fun _ => rfl
  cases key with
  | task => exact (Refuses.mapError _ fun _ => rfl).map _
  | label | status | priority | deadline | inclusion => exact (hvalue _).map _
  | depends =>
    refine (hvalue _).bind fun list => (Refuses.mapError _ fun _ => rfl).bind fun ids => ?_
    exact fun problem h => by cases h

/-! ## The kinds of blocks -/

section Kinds

variable (opening : Location) (notes : String) {items : List Item}

theorem readItems_of_task (h : ∀ item ∈ items, item.key ≠ .inclusion) :
    readItems opening notes items = readTask opening notes items := by
  rw [readItems, if_neg (by simpa using h)]

theorem readItems_of_inclusion (hne : items ≠ []) (h : ∀ item ∈ items, item.key = .inclusion) :
    readItems opening notes items = readInclusion opening items := by
  obtain ⟨item, hitem⟩ := List.exists_mem_of_ne_nil items hne
  have hany : (items.any fun item => item.key = .inclusion) = true :=
    List.any_eq_true.mpr ⟨item, hitem, by simp [h item hitem]⟩
  rw [readItems, if_pos hany, if_neg (by simpa using h)]

theorem readItems_of_mixed {item other : Item} (hitem : item ∈ items) (hkey : item.key = .inclusion)
    (hother : other ∈ items) (hne : other.key ≠ .inclusion) :
    readItems opening notes items =
      (Logged.error opening (.malformed .mixedBlock) >>= fun _ => return none) := by
  have hany : (items.any fun item => item.key = .inclusion) = true :=
    List.any_eq_true.mpr ⟨item, hitem, by simp [hkey]⟩
  have hmixed : (items.any fun item => item.key ≠ .inclusion) = true :=
    List.any_eq_true.mpr ⟨other, hother, by simp [hne]⟩
  rw [readItems, if_pos hany, if_pos hmixed]

/-- A block is read in one of three ways, as the keys of its items tell. -/
theorem readItems_cases (items : List Item) :
    ((∀ item ∈ items, item.key ≠ .inclusion) ∧
        readItems opening notes items = readTask opening notes items) ∨
      (items ≠ [] ∧ (∀ item ∈ items, item.key = .inclusion) ∧
        readItems opening notes items = readInclusion opening items) ∨
      (∃ item ∈ items, item.key = .inclusion) ∧ (∃ item ∈ items, item.key ≠ .inclusion) ∧
        readItems opening notes items =
          (Logged.error opening (.malformed .mixedBlock) >>= fun _ => return none) := by
  by_cases htask : ∀ item ∈ items, item.key ≠ .inclusion
  · exact .inl ⟨htask, readItems_of_task opening notes htask⟩
  obtain ⟨item, hitem, hkey⟩ : ∃ item ∈ items, item.key = .inclusion := by simpa using htask
  by_cases hall : ∀ item ∈ items, item.key = .inclusion
  · have hne : items ≠ [] := List.ne_nil_of_mem hitem
    exact .inr (.inl ⟨hne, hall, readItems_of_inclusion opening notes hne hall⟩)
  obtain ⟨other, hother, hne⟩ : ∃ item ∈ items, item.key ≠ .inclusion := by simpa using hall
  exact .inr (.inr ⟨⟨item, hitem, hkey⟩, ⟨other, hother, hne⟩,
    readItems_of_mixed opening notes hitem hkey hother hne⟩)

end Kinds

theorem readItems_eq_inclusion {opening : Location} {notes : String} {items : List Item}
    {files : Inclusion} (h : (readItems opening notes items).value = some (.inclusion files)) :
    files = ⟨(readFields [] items).value.filterMap Field.path?, opening⟩ := by
  rcases readItems_cases opening notes items with ⟨-, heq⟩ | ⟨-, -, heq⟩ | ⟨-, -, heq⟩
  · rw [heq, value_readTask] at h
    obtain ⟨r, -, hr⟩ := Option.map_eq_some_iff.mp h
    cases hr
  · rw [heq] at h
    exact (Block.inclusion.inj (Option.some.inj h)).symm
  · rw [heq] at h
    cases h

/-! ## Entries and items -/

/-- The diagnostic is about a section, so severe, and stands at one of these places. -/
structure Stands (severity : Severity) (places : Location → Prop) (d : Diagnostic) : Prop where
  severity : d.severity = severity
  ofSection : d.problem.ofSection = true
  location : ∃ l, d.location = some l ∧ places l

theorem Stands.imp {severity : Severity} {P Q : Location → Prop} {d : Diagnostic}
    (h : Stands severity P d) (hPQ : ∀ l, P l → Q l) : Stands severity Q d where
  severity := h.severity
  ofSection := h.ofSection
  location := by
    obtain ⟨l, hl, hP⟩ := h.location
    exact ⟨l, hl, hPQ l hP⟩

theorem Stands.at {severity : Severity} {P : Location → Prop} {l : Location} {problem : Problem}
    (hl : P l) (hproblem : problem.ofSection = true) :
    Stands severity P ⟨severity, some l, problem⟩ :=
  ⟨rfl, hproblem, l, rfl, hl⟩

/-- The location is one of `k` lines from line `n` on. -/
def Location.Within (origin : String) (n k : Nat) (l : Location) : Prop :=
  l.origin = origin ∧ n ≤ l.line ∧ l.line < n + k

theorem Location.Within.first (origin : String) (n k : Nat) :
    Location.Within origin n (k + 1) ⟨origin, n⟩ :=
  ⟨rfl, Nat.le_refl n, Nat.lt_add_of_pos_right (Nat.succ_pos k)⟩

theorem Location.Within.after_first {origin : String} {n k : Nat} {l : Location}
    (h : l.Within origin (n + 1) k) : l.Within origin n (k + 1) := by
  obtain ⟨horigin, hge, hlt⟩ := h
  exact ⟨horigin, by omega, by omega⟩

/-! Whatever is true of each way that a reader has to report is true of its reports. -/

theorem readEntries_reports_of {Q : Diagnostic → Prop} {origin : String} {n : Nat}
    {front : List (List Char)}
    (h : ∀ l, Location.Within origin n front.length l → Q ⟨.warning, some l, .ignored .blankLine⟩) :
    (readEntries origin n front).Reports Q := by
  induction front generalizing n with
  | nil => simp [readEntries]
  | cons line rest ih =>
    have hrest := ih fun l hl => h l hl.after_first
    unfold readEntries
    split
    · rw [Logged.reports_bind, Logged.reports_warn]
      exact ⟨h _ (.first origin n _), hrest⟩
    · rw [Logged.reports_bind]
      exact ⟨hrest, Logged.reports_pure _⟩

/-- Reading the lines of a front matter warns at blank ones, and reports nothing else. -/
theorem readEntries_reports (origin : String) (n : Nat) (front : List (List Char)) :
    (readEntries origin n front).Reports
      (Stands .warning (Location.Within origin n front.length)) :=
  readEntries_reports_of fun _ hl => .at hl rfl

theorem within_of_mem_readEntries {origin : String} {n : Nat} {front : List (List Char)} {e : Entry}
    (h : e ∈ (readEntries origin n front).value) : e.location.Within origin n front.length := by
  induction front generalizing n with
  | nil => cases h
  | cons line rest ih =>
    unfold readEntries at h
    split at h
    · exact (ih h).after_first
    · rcases List.mem_cons.mp h with rfl | h
      · exact .first origin n _
      · exact (ih h).after_first

section Any

variable {Q : Diagnostic → Prop} {opening : Location} {items : List Item} {entries : List Entry}

theorem readFields_reports_of (seen : List Key)
    (hrepeat : ∀ item ∈ items,
      Q ⟨.error, some item.location, .malformed (.duplicateProperty item.key.text)⟩)
    (hrefused : ∀ item ∈ items, ∀ problem, Field.read item.key item.value = .error problem →
      Q ⟨.error, some item.location, problem⟩) :
    (readFields seen items).Reports Q := by
  induction items generalizing seen with
  | nil => simp [readFields]
  | cons item rest ih =>
    obtain ⟨hitem, hrest⟩ := List.forall_mem_cons.mp hrepeat
    obtain ⟨hrefusal, hrefusals⟩ := List.forall_mem_cons.mp hrefused
    unfold readFields
    split
    · rw [Logged.reports_bind, Logged.reports_error]
      exact ⟨hitem, ih _ hrest hrefusals⟩
    · split
      · rename_i problem hread
        rw [Logged.reports_bind, Logged.reports_error]
        exact ⟨hrefusal problem hread, ih _ hrest hrefusals⟩
      · rw [Logged.reports_bind]
        exact ⟨ih _ hrest hrefusals, Logged.reports_pure _⟩

theorem readItems_reports_of (notes : String)
    (hmixed : Q ⟨.error, some opening, .malformed .mixedBlock⟩)
    (hmissing : Q ⟨.error, some opening, .malformed .missingTask⟩)
    (hfields : (readFields [] items).Reports Q) : (readItems opening notes items).Reports Q := by
  rcases readItems_cases opening notes items with ⟨-, heq⟩ | ⟨-, -, heq⟩ | ⟨-, -, heq⟩
  · rw [heq, readTask]
    split <;> simp [hfields, hmissing]
  · rw [heq, readInclusion]
    simp [hfields]
  · rw [heq]
    simp [hmixed]

theorem readBlock_reports_of (notes : String)
    (hunknown : ∀ e ∈ entries, Q ⟨.error, some e.location, .unknownProperty e.key⟩)
    (hitems : (readItems opening notes (entries.filterMap Entry.item?)).Reports Q) :
    (readBlock opening notes entries).Reports Q := by
  intro d hd
  rw [log_readBlock] at hd
  rcases List.mem_append.mp hd with hd | hd
  · obtain ⟨e, he, hunknown?⟩ := List.mem_filterMap.mp hd
    unfold Entry.unknown? at hunknown?
    split at hunknown?
    · cases hunknown?
    · cases hunknown?
      exact hunknown e he
  · exact hitems d hd

end Any

theorem Entry.exists_of_item {entries : List Entry} {item : Item}
    (h : item ∈ entries.filterMap Entry.item?) :
    ∃ e ∈ entries, item.value = e.value ∧ item.location = e.location := by
  obtain ⟨e, he, hitem⟩ := List.mem_filterMap.mp h
  obtain ⟨key, -, rfl⟩ := Option.map_eq_some_iff.mp hitem
  exact ⟨e, he, rfl, rfl⟩

section Places

variable {P : Location → Prop} {opening : Location} {items : List Item} {entries : List Entry}

theorem readFields_reports (seen : List Key) (h : ∀ item ∈ items, P item.location) :
    (readFields seen items).Reports (Stands .error P) :=
  readFields_reports_of seen (fun item hitem => .at (h item hitem) rfl)
    fun item hitem problem hread => .at (h item hitem) (Field.refuses_read _ _ problem hread)

theorem readItems_reports (notes : String) (hopening : P opening)
    (h : ∀ item ∈ items, P item.location) :
    (readItems opening notes items).Reports (Stands .error P) :=
  readItems_reports_of notes (.at hopening rfl) (.at hopening rfl) (readFields_reports [] h)

/-- A block reports errors, and nothing else. -/
theorem readBlock_reports (notes : String) (hopening : P opening)
    (h : ∀ e ∈ entries, P e.location) :
    (readBlock opening notes entries).Reports (Stands .error P) := by
  refine readBlock_reports_of notes (fun e he => .at (h e he) rfl)
    (readItems_reports notes hopening fun item hitem => ?_)
  obtain ⟨e, he, -, hlocation⟩ := Entry.exists_of_item hitem
  exact hlocation ▸ h e he

end Places

/-! ## A section -/

theorem readBlock_eq_inclusion {opening : Location} {notes : String} {entries : List Entry}
    {files : Inclusion} (h : (readBlock opening notes entries).value = some (.inclusion files)) :
    files =
      ⟨(readFields [] (entries.filterMap Entry.item?)).value.filterMap Field.path?, opening⟩ :=
  readItems_eq_inclusion (value_readItems_of_readBlock h)

namespace Section

variable (origin : String) (s : Section)

/-- The block of a section by itself, and what is reported of that. -/
def block : Logged (Option Block) :=
  readBlock ⟨origin, s.line⟩ s.notesText (readEntries origin (s.line + 1) s.front).value

theorem value_read : (s.read origin).value = (s.block origin).value := by
  unfold Section.read block
  rw [Logged.value_bind, Logged.value_bind]
  split
  · rename_i files hfiles
    rw [hfiles]
    split <;> rfl
  · rfl

end Section

theorem Section.read_reports_of {Q : Diagnostic → Prop} {origin : String} {s : Section}
    (hentries : (readEntries origin (s.line + 1) s.front).Reports Q)
    (hblock : (s.block origin).Reports Q)
    (hafter : Q ⟨.warning, some ⟨origin, s.line⟩, .ignored .afterInclude⟩) :
    (s.read origin).Reports Q := by
  unfold Section.read
  rw [Logged.reports_bind, Logged.reports_bind]
  refine ⟨hentries, hblock, ?_⟩
  split
  · rename_i files hfiles
    have hopening : files.location = ⟨origin, s.line⟩ := by rw [readBlock_eq_inclusion hfiles]
    split
    · rw [Logged.reports_bind, Logged.reports_warn, hopening]
      exact ⟨hafter, Logged.reports_pure _⟩
    · exact Logged.reports_pure _
  · exact Logged.reports_pure _

/-- The diagnostic is one about a section: it stands on the line of the opening fence or
on one of the front matter. -/
structure Section.Owns (origin : String) (s : Section) (d : Diagnostic) : Prop where
  ofSection : d.problem.ofSection = true
  location : ∃ l, d.location = some l ∧ l.Within origin s.line (s.front.length + 1)

/-- **A section reports problems of its own, on its own lines.** -/
theorem Section.read_reports (origin : String) (s : Section) :
    (s.read origin).Reports (s.Owns origin) := by
  have hentries := (readEntries_reports origin (s.line + 1) s.front).imp
    fun d hd => Section.Owns.mk hd.ofSection (hd.imp fun _ hl => hl.after_first).location
  have hblock := (readBlock_reports s.notesText (.first origin s.line s.front.length)
    fun e he => (within_of_mem_readEntries he).after_first).imp
      fun d hd => Section.Owns.mk hd.ofSection hd.location
  exact Section.read_reports_of hentries hblock ⟨rfl, _, rfl, .first origin s.line _⟩

/-! ## A document -/

theorem value_readSections (origin : String) (sections : List Section) :
    (readSections origin sections).value = sections.filterMap fun s => (s.read origin).value := by
  induction sections with
  | nil => rfl
  | cons s rest ih =>
    show (s.read origin).value.toList ++ (readSections origin rest).value = _
    rw [ih, List.filterMap_cons]
    cases (s.read origin).value <;> rfl

theorem log_readSections (origin : String) (sections : List Section) :
    (readSections origin sections).log = sections.flatMap fun s => (s.read origin).log := by
  induction sections with
  | nil => rfl
  | cons s rest ih =>
    show (s.read origin).log ++ ((readSections origin rest).log ++ []) = _
    rw [ih, List.append_nil, List.flatMap_cons]

theorem value_readDocument (origin text : String) :
    (readDocument origin text).value =
      (Layout.ofText text).sections.filterMap fun s => (s.read origin).value := by
  rw [← value_readSections]
  unfold readDocument Layout.read
  split <;> split <;> rfl

/-- What is reported of text before the first block. -/
def preambleAt (origin : String) (n : Nat) : Diagnostic :=
  ⟨.warning, some ⟨origin, n⟩, .ignored .preamble⟩

/-- What is reported of a fence without a partner. -/
def unterminatedAt (origin : String) (n : Nat) : Diagnostic :=
  ⟨.error, some ⟨origin, n⟩, .malformed .unterminated⟩

/-- What is reported of a text: its preamble, its sections in order, and its end. -/
theorem log_readDocument (origin text : String) :
    (readDocument origin text).log =
      (firstText? 1 (Layout.ofText text).lead).toList.map (preambleAt origin) ++
        (Layout.ofText text).sections.flatMap (fun s => (s.read origin).log) ++
        (Layout.ofText text).unterminated.toList.map (unterminatedAt origin) := by
  rw [← log_readSections]
  unfold readDocument Layout.read
  cases firstText? 1 (Layout.ofText text).lead <;>
    cases (Layout.ofText text).unterminated <;> simp [preambleAt, unterminatedAt]

end TaskOutline
