import TaskOutline.Document.Field

/-! # What a value means

A field is read from the key and the value of a line.  `Field.Means` says which field
that is, reader by reader, and `Field.read_eq_ok_iff` that reading finds it: so whoever
needs to know what a value can be read as has one case for each key, and no reader to
take apart.
-/
namespace TaskOutline

theorem Except.map_eq_ok {ε α β : Type} {x : Except ε α} {f : α → β} {b : β}
    (h : x.map f = .ok b) : ∃ a, x = .ok a ∧ f a = b := by
  cases x with
  | error e => cases h
  | ok a => exact ⟨a, rfl, Except.ok.inj h⟩

theorem Except.bind_eq_ok {ε α β : Type} {x : Except ε α} {next : α → Except ε β} {b : β}
    (h : x >>= next = .ok b) : ∃ a, x = .ok a ∧ next a = .ok b := by
  cases x with
  | error e => cases h
  | ok a => exact ⟨a, rfl, h⟩

theorem Except.map_eq_error {ε α β : Type} {x : Except ε α} {f : α → β} {e : ε}
    (h : x.map f = .error e) : x = .error e := by
  cases x with
  | error e' => exact congrArg Except.error (Except.error.inj h)
  | ok a => cases h

theorem Except.mapError_eq_error {ε ε' α : Type} {x : Except ε α} {f : ε → ε'} {e' : ε'}
    (h : x.mapError f = .error e') : ∃ e, x = .error e ∧ f e = e' := by
  cases x with
  | error e => exact ⟨e, rfl, Except.error.inj h⟩
  | ok a => cases h

theorem Except.bind_eq_error {ε α β : Type} {x : Except ε α} {next : α → Except ε β} {e : ε}
    (h : x >>= next = .error e) : x = .error e ∨ ∃ a, x = .ok a ∧ next a = .error e := by
  cases x with
  | error e' => exact .inl (congrArg Except.error (Except.error.inj h))
  | ok a => exact .inr ⟨a, rfl, h⟩

namespace Field

/-- What a value says after a key. -/
inductive Means : Key → String → Field → Prop
  | task {v : String} {id : TaskId} : TaskId.parse v = .ok id → Means .task v (.task id)
  | label {v : String} : v ≠ "" → Means .label v (.label v)
  | status {v : String} {s : Status} : Status.parse v = .ok s → Means .status v (.status s)
  | priority {v : String} {p : Declared Priority} :
      Declared.parse Priority.parse v = .ok p → Means .priority v (.priority p)
  | deadline {v : String} {d : Declared Date} :
      Declared.parse Date.parse v = .ok d → Means .deadline v (.deadline d)
  | depends {v : String} {ids : List TaskId} :
      v ≠ "" → readIds v = .ok ids → Means .depends v (.depends ids)
  | inclusion {v : String} : v ≠ "" → Means .inclusion v (.inclusion v)

theorem mapError_eq_ok_iff {ε ε' α : Type} {x : Except ε α} {f : ε → ε'} {a : α} :
    x.mapError f = .ok a ↔ x = .ok a := by
  constructor
  · intro h
    cases x with
    | error e => cases h
    | ok b => exact congrArg Except.ok (Except.ok.inj h)
  · rintro rfl
    rfl

theorem readValue_eq_ok_iff {α : Type} {key : Key} {read : String → Except Reason α} {v : String}
    {a : α} : readValue key read v = .ok a ↔ read v = .ok a :=
  mapError_eq_ok_iff

theorem readText_eq_ok_iff {refusal : Reason} {v s : String} :
    readText refusal v = .ok s ↔ v ≠ "" ∧ s = v := by
  unfold readText
  by_cases h : v = ""
  · simp [h]
  · rw [if_neg (by simpa using h)]
    simp [h, eq_comm]

/-- **A value is read as what it says.** -/
theorem read_eq_ok_iff {key : Key} {v : String} {f : Field} :
    read key v = .ok f ↔ Means key v f := by
  constructor
  · intro h
    cases key with
    | task =>
      obtain ⟨id, hid, rfl⟩ := Except.map_eq_ok h
      exact .task (mapError_eq_ok_iff.mp hid)
    | label =>
      obtain ⟨s, hs, rfl⟩ := Except.map_eq_ok h
      obtain ⟨hne, rfl⟩ := readText_eq_ok_iff.mp (readValue_eq_ok_iff.mp hs)
      exact .label hne
    | status =>
      obtain ⟨s, hs, rfl⟩ := Except.map_eq_ok h
      exact .status (readValue_eq_ok_iff.mp hs)
    | priority =>
      obtain ⟨p, hp, rfl⟩ := Except.map_eq_ok h
      exact .priority (readValue_eq_ok_iff.mp hp)
    | deadline =>
      obtain ⟨d, hd, rfl⟩ := Except.map_eq_ok h
      exact .deadline (readValue_eq_ok_iff.mp hd)
    | depends =>
      obtain ⟨list, hlist, hrest⟩ := Except.bind_eq_ok h
      obtain ⟨ids, hids, hfield⟩ := Except.bind_eq_ok hrest
      obtain ⟨hne, rfl⟩ := readText_eq_ok_iff.mp (readValue_eq_ok_iff.mp hlist)
      obtain rfl : Field.depends ids = f := Except.ok.inj hfield
      exact .depends hne (mapError_eq_ok_iff.mp hids)
    | inclusion =>
      obtain ⟨s, hs, rfl⟩ := Except.map_eq_ok h
      obtain ⟨hne, rfl⟩ := readText_eq_ok_iff.mp (readValue_eq_ok_iff.mp hs)
      exact .inclusion hne
  · intro h
    cases h with
    | task hid => exact congrArg (Except.map Field.task) (mapError_eq_ok_iff.mpr hid)
    | label hne =>
      exact congrArg (Except.map Field.label)
        (readValue_eq_ok_iff.mpr (readText_eq_ok_iff.mpr ⟨hne, rfl⟩))
    | status hs => exact congrArg (Except.map Field.status) (readValue_eq_ok_iff.mpr hs)
    | priority hp => exact congrArg (Except.map Field.priority) (readValue_eq_ok_iff.mpr hp)
    | deadline hd => exact congrArg (Except.map Field.deadline) (readValue_eq_ok_iff.mpr hd)
    | @depends v ids hne hids =>
      have hlist : readValue .depends (readText .emptyDepends) v = .ok v :=
        readValue_eq_ok_iff.mpr (readText_eq_ok_iff.mpr ⟨hne, rfl⟩)
      have hids : (readIds v).mapError Problem.invalidIdentifier = .ok ids :=
        mapError_eq_ok_iff.mpr hids
      show (readValue .depends _ v >>= fun list => _) = _
      rw [hlist]
      show ((readIds v).mapError _ >>= fun ids => _) = _
      rw [hids]
      rfl
    | inclusion hne =>
      exact congrArg (Except.map Field.inclusion)
        (readValue_eq_ok_iff.mpr (readText_eq_ok_iff.mpr ⟨hne, rfl⟩))

theorem Means.key_eq {key : Key} {v : String} {f : Field} (h : Means key v f) : f.key = key := by
  cases h <;> rfl

end Field

end TaskOutline
