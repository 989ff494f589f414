import Mathlib.Data.List.Dedup
import TaskOutline.Proofs.Identifier.Order
import TaskOutline.Proofs.Outline.Entries
import TaskOutline.Proofs.Property.Days
import TaskOutline.Report.Agenda

/-! # The agenda and the calendar

The agenda has every task that is not done, once: with its deadline if it has one, and these
in the order of the deadlines and on one day in the order of the identifiers
(`Agenda.Lists`).

The calendar goes through the agenda once and knows of what it has written only the last
headings, that of a month and that of a day in it.  A day is forgotten when its month is, so
that the two are always those of the last deadline, and what is written depends on no more
(`datedLines_after`).  What comes of it is the agenda in groups (`Agenda.Groups`): a group
for each month, in it a group for each day, and in this a line for each task.  A group is
written all at once, since nothing of it stands apart from the rest, and at its start the
last deadline lies outside of it; so the months, and the days of a month, are separated in
the same way (`linesAfter_flatMap`).
-/
namespace TaskOutline

/-! ## Groups of a list -/

section Groups

variable {α κ : Type} [LT κ] [DecidableEq κ]

/-- **A list in order is made of its groups.**  The groups are in the order of their keys
and each has its elements as they are arranged in the list. -/
theorem flatMap_filter_key {r : α → α → Prop} [Std.Asymm r] {key : α → κ}
    (hkey : ∀ a b, key a < key b → r a b) {xs : List α} (hxs : xs.Pairwise r) {ks : List κ}
    (hks : ks.Pairwise (· < ·)) (hmem : ∀ x ∈ xs, key x ∈ ks) :
    (ks.flatMap fun k => xs.filter fun x => key x = k) = xs := by
  have hsorted : (ks.flatMap fun k => xs.filter fun x => key x = k).Pairwise r := by
    refine List.pairwise_flatMap.mpr ⟨fun k _ => hxs.filter _, hks.imp fun {k l} hlt => ?_⟩
    intro a ha b hb
    have hak : key a = k := by simpa using (List.mem_filter.mp ha).2
    have hbl : key b = l := by simpa using (List.mem_filter.mp hb).2
    exact hkey a b (hak ▸ hbl ▸ hlt)
  -- both lists are in strict order, so that it is enough that they have the same elements
  refine List.Perm.eq_of_pairwise (fun a b _ _ hab hba => ?_) hsorted hxs
    ((List.perm_ext_iff_of_nodup hsorted.nodup hxs.nodup).mpr fun a => ?_)
  · exact absurd hba (Std.Asymm.asymm a b hab)
  · simp only [List.mem_flatMap, List.mem_filter, decide_eq_true_eq]
    constructor
    · rintro ⟨-, -, ha, -⟩
      exact ha
    · intro ha
      exact ⟨key a, hmem a ha, ha, rfl⟩

/-- Without their repetitions, the elements of a sorted list ascend. -/
theorem pairwise_dedup [Std.Trichotomous (· < · : κ → κ → Prop)] {ks : List κ}
    (h : ks.Pairwise fun a b => ¬ b < a) : ks.dedup.Pairwise (· < ·) := by
  refine ((h.sublist (List.dedup_sublist ks)).and (List.nodup_dedup ks)).imp ?_
  rintro a b ⟨hle, hne⟩
  by_contra hlt
  exact hne (Std.Trichotomous.trichotomous a b hlt hle)

end Groups

namespace Agenda

/-! ## The lists of the agenda -/

/-- An earlier deadline, or one of the two on the same day with the smaller identifier. -/
def Before (x y : Date × Node) : Prop := x.1 < y.1 ∨ (x.1 = y.1 ∧ x.2.id < y.2.id)

/-- The agenda of an outline has what is not done, and has it in order. -/
structure Lists (t : Outline) (a : Agenda) : Prop where
  /-- A task that is not done is in the list for its deadline. -/
  dated : ∀ d n, (d, n) ∈ a.dated ↔ n ∈ t.nodes ∧ n.status ≠ .done ∧ n.deadline = some d
  /-- Without a deadline it is in the other list. -/
  undated : ∀ n, n ∈ a.undated ↔ n ∈ t.nodes ∧ n.status ≠ .done ∧ n.deadline = none
  /-- It is there once, and nothing else is there. -/
  once : ∀ n, (a.dated.map Prod.snd ++ a.undated).count n =
    if n ∈ t.nodes ∧ n.status ≠ .done then 1 else 0
  /-- Deadlines come in order, and tasks of the same day by their identifiers. -/
  dated_ascend : a.dated.Pairwise Before
  /-- Tasks without a deadline come by their identifiers. -/
  undated_ascend : a.undated.Pairwise fun m n => m.id < n.id

section Lists

instance : Std.Asymm Before where
  asymm := by
    rintro x y (hlt | ⟨heq, hlt⟩) (hgt | ⟨hback, hgt⟩)
    · exact Date.lt_asymm hlt hgt
    · rw [hback] at hlt
      exact Std.Irrefl.irrefl x.1 hlt
    · rw [heq] at hgt
      exact Std.Irrefl.irrefl y.1 hgt
    · exact TaskId.lt_asymm hlt hgt

/-- The tasks that are not done, in order. -/
def active (t : Outline) : List Node := t.nodes.filter fun n => !n.isComplete

/-- A task with its deadline. -/
def due (n : Node) : Option (Date × Node) := n.deadline.map fun d => (d, n)

variable (t : Outline)

theorem dated_ofOutline :
    (ofOutline t).dated =
      ((active t).filterMap due).mergeSort fun a b => !decide (b.1 < a.1) :=
  rfl

theorem undated_ofOutline :
    (ofOutline t).undated = (active t).filter fun n => n.deadline.isNone :=
  rfl

variable {t} {n : Node}

theorem mem_active : n ∈ active t ↔ n ∈ t.nodes ∧ n.status ≠ .done := by
  simp [active, Node.isComplete, Status.isComplete]

theorem due_eq_some {e : Date × Node} : due n = some e ↔ e.2 = n ∧ n.deadline = some e.1 := by
  obtain ⟨d, m⟩ := e
  simp only [due, Option.map_eq_some_iff, Prod.mk.injEq]
  constructor
  · rintro ⟨_, hd, rfl, rfl⟩
    exact ⟨rfl, hd⟩
  · rintro ⟨rfl, hd⟩
    exact ⟨d, hd, rfl, rfl⟩

theorem mem_due {e : Date × Node} :
    e ∈ (active t).filterMap due ↔ e.2 ∈ active t ∧ e.2.deadline = some e.1 := by
  simp only [List.mem_filterMap, due_eq_some]
  constructor
  · rintro ⟨_, hn, rfl, hd⟩
    exact ⟨hn, hd⟩
  · rintro ⟨hn, hd⟩
    exact ⟨e.2, hn, rfl, hd⟩

theorem pairwise_active (t : Outline) : (active t).Pairwise fun m n => m.id < n.id :=
  t.ascending.filter _

/-- The tasks with a deadline stand as they do in the outline, before they are sorted. -/
theorem pairwise_due (t : Outline) :
    ((active t).filterMap due).Pairwise fun x y => x.2.id < y.2.id := by
  refine List.pairwise_filterMap.mpr ((pairwise_active t).imp ?_)
  intro m n hlt x hx y hy
  rw [(due_eq_some.mp hx).1, (due_eq_some.mp hy).1]
  exact hlt

/-- Those of one day stand so after they are sorted, too. -/
theorem pairwise_dated (t : Outline) : (ofOutline t).dated.Pairwise Before := by
  rw [dated_ofOutline]
  refine List.pairwise_of_forall_sublist fun {x y} hsub => ?_
  have hle : ¬ y.1 < x.1 := (pairwise_mergeSort_key Prod.fst _).forall_sublist hsub
  by_cases hlt : x.1 < y.1
  · exact .inl hlt
  · -- two of one day, which stood in the same way before sorting
    have heq : x.1 = y.1 := Date.eq_of_not_lt hlt hle
    have hday := hsub.filter fun e => decide (e.1 = y.1)
    rw [filter_mergeSort_key Prod.fst _ y.1] at hday
    have hpair : [x, y].filter (fun e => decide (e.1 = y.1)) = [x, y] := by simp [heq]
    rw [hpair] at hday
    exact .inr ⟨heq, (pairwise_due t).forall_sublist (hday.trans List.filter_sublist)⟩

/-- Taken together, the lists have the tasks that are not done. -/
theorem perm_active (t : Outline) :
    ((ofOutline t).dated.map Prod.snd ++ (ofOutline t).undated).Perm (active t) := by
  have hdated : ((active t).filterMap due).map Prod.snd =
      (active t).filter fun n => !n.deadline.isNone := by
    rw [List.map_filterMap, ← List.filterMap_eq_filter]
    refine List.filterMap_congr fun n _ => ?_
    cases hd : n.deadline <;> simp [due, hd, Option.guard]
  have hsorted : ((ofOutline t).dated.map Prod.snd).Perm
      ((active t).filter fun n => !n.deadline.isNone) := by
    rw [← hdated]
    exact (List.mergeSort_perm _ _).map Prod.snd
  refine (hsorted.append_right _).trans (List.perm_append_comm.trans ?_)
  exact List.filter_append_perm (fun n => n.deadline.isNone) (active t)

/-- **The agenda loses nothing and has nothing twice, and it is in order.** -/
theorem lists_ofOutline (t : Outline) : Lists t (ofOutline t) where
  dated d n := by
    rw [dated_ofOutline, List.mem_mergeSort, mem_due, mem_active, and_assoc]
  undated n := by
    rw [undated_ofOutline, List.mem_filter, mem_active, Option.isNone_iff_eq_none, and_assoc]
  once n := by
    have hnodup : (active t).Nodup := t.ascending.nodup_map.of_map.filter _
    rw [(perm_active t).count_eq, hnodup.count]
    simp only [mem_active]
  dated_ascend := pairwise_dated t
  undated_ascend := (pairwise_active t).filter _

end Lists

/-! ## The groups -/

section Groups

variable (a : Agenda)

/-- The days with a deadline. -/
def days : List Date := (a.dated.map Prod.fst).dedup

/-- The months with a deadline. -/
def months : List Month := (a.days.map Date.inMonth).dedup

/-- The days of a month with a deadline. -/
def daysIn (m : Month) : List Date := a.days.filter fun d => d.inMonth = m

/-- The entries of a day. -/
def entriesOn (d : Date) : List (Date × Node) := a.dated.filter fun e => e.1 = d

/-- The tasks of a day. -/
def tasksOn (d : Date) : List Node := (a.entriesOn d).map Prod.snd

/-- A day has its heading and a line for each of its tasks. -/
def dayLines (d : Date) : List String :=
  ["### " ++ d.text ++ " " ++ d.weekdayName, ""] ++
    (a.tasksOn d).map fun n => "- " ++ n.status.marker ++ " " ++ n.heading

/-- A month has its heading and its days, with an empty line between any two. -/
def monthLines (m : Month) : List String :=
  ["## " ++ m.title, ""] ++ [""].intercalate ((a.daysIn m).map a.dayLines)

/-- The groups are those of the agenda, each once and in order. -/
structure Groups : Prop where
  mem_months : ∀ m, m ∈ a.months ↔ ∃ d n, (d, n) ∈ a.dated ∧ d.inMonth = m
  months_ascend : a.months.Pairwise (· < ·)
  mem_days : ∀ m d, d ∈ a.daysIn m ↔ d.inMonth = m ∧ ∃ n, (d, n) ∈ a.dated
  days_ascend : ∀ m, (a.daysIn m).Pairwise (· < ·)
  mem_tasks : ∀ d n, n ∈ a.tasksOn d ↔ (d, n) ∈ a.dated
  tasks_ascend : ∀ d, (a.tasksOn d).Pairwise fun m n => m.id < n.id

variable {a}

theorem mem_days {d : Date} : d ∈ a.days ↔ ∃ n, (d, n) ∈ a.dated := by
  simp [days]

theorem mem_entriesOn {d : Date} {e : Date × Node} :
    e ∈ a.entriesOn d ↔ e ∈ a.dated ∧ e.1 = d := by
  simp [entriesOn]

theorem mem_daysIn {m : Month} {d : Date} : d ∈ a.daysIn m ↔ d ∈ a.days ∧ d.inMonth = m := by
  simp [daysIn]

variable (h : a.dated.Pairwise Before)

include h

theorem pairwise_days : a.days.Pairwise (· < ·) := by
  refine pairwise_dedup (List.pairwise_map.mpr (h.imp ?_))
  rintro x y (hlt | ⟨heq, -⟩)
  · exact Date.lt_asymm hlt
  · exact heq ▸ Std.Irrefl.irrefl x.1

theorem pairwise_months : a.months.Pairwise (· < ·) := by
  refine pairwise_dedup (List.pairwise_map.mpr ((pairwise_days h).imp ?_))
  intro d e hlt hback
  exact Date.lt_asymm hlt (Date.lt_of_inMonth_lt hback)

theorem groups_of_pairwise : a.Groups where
  mem_months m := by
    simp only [months, List.mem_dedup, List.mem_map, mem_days]
    constructor
    · rintro ⟨d, ⟨n, hmem⟩, hm⟩
      exact ⟨d, n, hmem, hm⟩
    · rintro ⟨d, n, hmem, hm⟩
      exact ⟨d, ⟨n, hmem⟩, hm⟩
  months_ascend := pairwise_months h
  mem_days m d := by
    rw [mem_daysIn, mem_days, and_comm]
  days_ascend m := (pairwise_days h).filter _
  mem_tasks d n := by
    simp [tasksOn, mem_entriesOn]
  tasks_ascend d := by
    refine List.pairwise_map.mpr (List.Pairwise.imp_of_mem ?_ (h.filter _))
    rintro x y hx hy (hlt | ⟨-, hlt⟩)
    · have hxy : x.1 = y.1 := (mem_entriesOn.mp hx).2.trans (mem_entriesOn.mp hy).2.symm
      exact absurd hlt (hxy ▸ Std.Irrefl.irrefl x.1)
    · exact hlt

/-- The entries are those of the days, and the days are those of the months. -/
theorem dated_eq_flatMap : a.dated = a.months.flatMap fun m => (a.daysIn m).flatMap a.entriesOn := by
  have hdays : a.months.flatMap a.daysIn = a.days :=
    flatMap_filter_key (fun _ _ => Date.lt_of_inMonth_lt) (pairwise_days h) (pairwise_months h)
      fun d hd => List.mem_dedup.mpr (List.mem_map_of_mem hd)
  have hentries : a.days.flatMap a.entriesOn = a.dated :=
    flatMap_filter_key (r := Before) (fun _ _ => Or.inl) h (pairwise_days h)
      fun e he => mem_days.mpr ⟨e.2, he⟩
  rw [← List.flatMap_assoc, hdays, hentries]

end Groups

/-! ## The calendar is written in groups -/

section Text

/-- The lines between a task due on one day and the next due on another. -/
def between : Option Date → Date → List String
  | none, d => monthHeading d ++ dayHeading d
  | some last, d =>
    if (last.year, last.month) ≠ (d.year, d.month) then
      "" :: monthHeading d ++ dayHeading d
    else if last ≠ d then "" :: dayHeading d
    else []

/-- The lines of tasks with deadlines, given the deadline of the task before them. -/
def linesAfter (last : Option Date) : List (Date × Node) → List String
  | [] => []
  | (d, n) :: rest => between last d ++ bullet n :: linesAfter (some d) rest

/-- The headings after a task with a deadline. -/
def Headings.after (last : Option Date) : Headings :=
  ⟨last.map fun d => (d.year, d.month), last⟩

/-- The headings of a task are written between it and the one before, and are then those of
its deadline. -/
theorem Headings.open_after (last : Option Date) (d : Date) :
    let (month, s) := (after last).openMonth d
    let (day, s') := s.openDay d
    month ++ day = between last d ∧ s' = after (some d) := by
  cases last with
  | none => exact ⟨rfl, rfl⟩
  | some last =>
    by_cases hmonth : (last.year, last.month) = (d.year, d.month)
    · -- the month goes on: its heading stands, and so does that of the day if it is the last
      by_cases hday : last = d <;>
        simp [openMonth, openDay, between, after, hmonth, hday]
    · -- another month: its heading is written, and then that of the day in any case
      simp [openMonth, openDay, between, after, hmonth]

/-- **What is written depends on the last deadline alone.** -/
theorem datedLines_after (last : Option Date) (dated : List (Date × Node)) :
    datedLines (.after last) dated = linesAfter last dated := by
  induction dated generalizing last with
  | nil => rfl
  | cons e dated ih =>
    obtain ⟨d, n⟩ := e
    obtain ⟨hlines, hstate⟩ := Headings.open_after last d
    rw [linesAfter, ← ih, ← hlines, ← hstate]
    rfl

/-- After some tasks the last deadline is that of the last one. -/
theorem linesAfter_append {xs : List (Date × Node)} (hne : xs ≠ []) (last : Option Date)
    (ys : List (Date × Node)) :
    linesAfter last (xs ++ ys) =
      linesAfter last xs ++ linesAfter (some (xs.getLast hne).1) ys := by
  induction xs generalizing last with
  | nil => exact absurd rfl hne
  | cons e xs ih =>
    obtain ⟨d, n⟩ := e
    by_cases hxs : xs = []
    · subst hxs
      simp [linesAfter]
    · rw [List.getLast_cons hxs, List.cons_append, linesAfter, ih hxs, linesAfter]
      simp

/-- **Groups are separated by empty lines**, if each is written with one when it comes after
a deadline of another group. -/
theorem linesAfter_flatMap {κ : Type} (key : Date → κ) (inside : Date → Prop)
    {chunk : κ → List (Date × Node)} {lines : κ → List String} {k : κ} {ks : List κ}
    (hnodup : (k :: ks).Nodup) (hne : ∀ l ∈ k :: ks, chunk l ≠ [])
    (hkey : ∀ l ∈ k :: ks, ∀ e ∈ chunk l, key e.1 = l ∧ inside e.1)
    (hlines : ∀ l ∈ ks, ∀ d, inside d → key d ≠ l →
      linesAfter (some d) (chunk l) = [""] ++ lines l)
    {last : Option Date} {opening : List String}
    (hfirst : linesAfter last (chunk k) = opening ++ lines k) :
    linesAfter last ((k :: ks).flatMap chunk) =
      opening ++ [""].intercalate ((k :: ks).map lines) := by
  -- after the first group, the next one is first, and what opens it is the empty line
  induction ks generalizing k last opening with
  | nil => simp [hfirst]
  | cons l ks ih =>
    obtain ⟨hk, hks⟩ := List.nodup_cons.mp hnodup
    obtain ⟨hchunk, hchunks⟩ := List.forall_mem_cons.mp hne
    obtain ⟨hkeyk, hkeys⟩ := List.forall_mem_cons.mp hkey
    obtain ⟨hlast, hinside⟩ := hkeyk _ (List.getLast_mem hchunk)
    have hkl : key ((chunk k).getLast hchunk).1 ≠ l := by
      rw [hlast]
      exact fun heq => hk (heq ▸ List.mem_cons_self)
    obtain ⟨hl, hls⟩ := List.forall_mem_cons.mp hlines
    rw [List.flatMap_cons, linesAfter_append hchunk, hfirst,
      ih hks hchunks hkeys hls (hl _ hinside hkl)]
    simp only [List.map_cons, List.intercalate_cons_cons, List.append_assoc]

/-- Tasks of one day stand one after another. -/
theorem linesAfter_day {d : Date} {es : List (Date × Node)} (hne : es ≠ [])
    (hday : ∀ e ∈ es, e.1 = d) (last : Option Date) :
    linesAfter last es = between last d ++ es.map fun e => bullet e.2 := by
  induction es generalizing last with
  | nil => exact absurd rfl hne
  | cons e es ih =>
    obtain ⟨he, hes⟩ := List.forall_mem_cons.mp hday
    obtain ⟨d', n⟩ := e
    obtain rfl : d' = d := he
    have hrest : linesAfter (some d') es = es.map fun e => bullet e.2 := by
      by_cases hnil : es = []
      · rw [hnil]
        rfl
      · have hsame : between (some d') d' = [] := by simp [between]
        rw [ih hnil hes, hsame, List.nil_append]
    rw [linesAfter, hrest]
    rfl

variable {a : Agenda}

theorem linesAfter_entriesOn {d : Date} (hd : d ∈ a.days) (last : Option Date) :
    linesAfter last (a.entriesOn d) = between last d ++ (a.tasksOn d).map bullet := by
  obtain ⟨n, hn⟩ := mem_days.mp hd
  have hne : a.entriesOn d ≠ [] := List.ne_nil_of_mem (mem_entriesOn.mpr ⟨hn, rfl⟩)
  rw [linesAfter_day hne (fun e he => (mem_entriesOn.mp he).2), tasksOn, List.map_map]
  rfl

/-- What is written between two days of the same month. -/
theorem between_of_inMonth_eq {d e : Date} (hmonth : d.inMonth = e.inMonth) (hne : d ≠ e) :
    between (some d) e = "" :: dayHeading e := by
  rw [between, if_neg (not_not_intro (Date.inMonth_eq_iff.mp hmonth)), if_pos hne]

/-- What is written between two days of different months. -/
theorem between_of_inMonth_ne {d e : Date} (hmonth : d.inMonth ≠ e.inMonth) :
    between (some d) e = "" :: monthHeading e ++ dayHeading e := by
  rw [between, if_pos fun heq => hmonth (Date.inMonth_eq_iff.mpr heq)]

theorem monthHeading_eq (d : Date) : monthHeading d = ["## " ++ d.inMonth.title, ""] := by
  rw [d.title_inMonth, monthHeading, String.append_assoc, String.append_assoc, String.append_assoc]

/-- **The days of a month are written as the group of this month**, below its heading. -/
theorem linesAfter_month {m : Month} (hm : m ∈ a.months) {last : Option Date}
    {opening : List String} (hopening : ∀ d, d.inMonth = m →
      between last d = opening ++ monthHeading d ++ dayHeading d) :
    linesAfter last ((a.daysIn m).flatMap a.entriesOn) = opening ++ a.monthLines m := by
  obtain ⟨d, hd, hdm⟩ := List.mem_map.mp (List.mem_dedup.mp hm)
  have hne : a.daysIn m ≠ [] := List.ne_nil_of_mem (mem_daysIn.mpr ⟨hd, hdm⟩)
  obtain ⟨e, es, hes⟩ := List.exists_cons_of_ne_nil hne
  have hin : ∀ d ∈ e :: es, d ∈ a.days ∧ d.inMonth = m := by
    intro d hmem
    exact mem_daysIn.mp (hes ▸ hmem)
  obtain ⟨he, hem⟩ := hin e List.mem_cons_self
  have hnodup : (e :: es).Nodup := hes ▸ (List.nodup_dedup _).filter _
  rw [monthLines, hes, ← List.append_assoc, ← hem, ← monthHeading_eq]
  refine linesAfter_flatMap (fun d => d) (fun d => d.inMonth = m) hnodup ?_ ?_ ?_ ?_
  · intro d hmem
    obtain ⟨n, hn⟩ := mem_days.mp (hin d hmem).1
    exact List.ne_nil_of_mem (mem_entriesOn.mpr ⟨hn, rfl⟩)
  · intro d hmem x hx
    have hxd : x.1 = d := (mem_entriesOn.mp hx).2
    exact ⟨hxd, hxd ▸ (hin d hmem).2⟩
  · intro d hmem c hc hne
    obtain ⟨hd, hdm⟩ := hin d (List.mem_cons_of_mem _ hmem)
    rw [linesAfter_entriesOn hd, between_of_inMonth_eq (hc.trans hdm.symm) hne]
    rfl
  · rw [linesAfter_entriesOn he, hopening e hem, List.append_assoc]
    rfl

/-- **The tasks with deadlines are written in their groups.** -/
theorem linesAfter_groups (hsorted : a.dated.Pairwise Before) :
    linesAfter none a.dated = [""].intercalate (a.months.map a.monthLines) := by
  have hgroups := groups_of_pairwise hsorted
  have hinside : ∀ m, ∀ x ∈ (a.daysIn m).flatMap a.entriesOn, x.1.inMonth = m := by
    intro m x hx
    obtain ⟨d, hd, hxd⟩ := List.mem_flatMap.mp hx
    rw [(mem_entriesOn.mp hxd).2]
    exact (mem_daysIn.mp hd).2
  rw [dated_eq_flatMap hsorted]
  cases hmonths : a.months with
  | nil => rfl
  | cons m ms =>
    have hin : ∀ k ∈ m :: ms, k ∈ a.months := fun k hk => hmonths ▸ hk
    show linesAfter none _ = [] ++ _
    refine linesAfter_flatMap Date.inMonth (fun _ => True) (hmonths ▸ List.nodup_dedup _) ?_
      (fun k _ x hx => ⟨hinside k x hx, trivial⟩) ?_ ?_
    · intro k hk
      obtain ⟨d, n, hn, hdk⟩ := (hgroups.mem_months k).mp (hin k hk)
      refine List.ne_nil_of_mem (a := (d, n)) (List.mem_flatMap.mpr ⟨d, ?_, ?_⟩)
      · exact (hgroups.mem_days k d).mpr ⟨hdk, n, hn⟩
      · exact mem_entriesOn.mpr ⟨hn, rfl⟩
    · intro k hk d _ hne
      refine linesAfter_month (hin k (List.mem_cons_of_mem _ hk)) fun e he => ?_
      rw [between_of_inMonth_ne (he ▸ hne)]
      rfl
    · refine linesAfter_month (hin m List.mem_cons_self) fun e _ => ?_
      rfl

end Text

/-- **The calendar is the agenda in groups.**  The agenda has every task that is not done
once, in order.  The calendar has a group for each month, with a group for each day in it,
in which there is a line for each task of that day; the groups are in order and have an
empty line between them.  It says so when there is no task with a deadline, and has the
tasks without one at its end. -/
theorem ofOutline_grouped (t : Outline) :
    let a := ofOutline t
    Lists t a ∧ a.Groups ∧
    a.text = unlines (["# Calendar", ""] ++
      (if a.dated = [] then ["No active tasks have a deadline.", ""]
        else [""].intercalate (a.months.map a.monthLines) ++ [""]) ++
      (if a.undated = [] then []
        else ["## No Deadline", ""] ++
          (a.undated.map fun n => "- " ++ n.status.marker ++ " " ++ n.heading) ++ [""])) := by
  intro a
  have hlists : Lists t a := lists_ofOutline t
  refine ⟨hlists, groups_of_pairwise hlists.dated_ascend, ?_⟩
  have hdated : a.datedSection = if a.dated = [] then ["No active tasks have a deadline.", ""]
      else [""].intercalate (a.months.map a.monthLines) ++ [""] := by
    have hnone : datedLines {} a.dated = linesAfter none a.dated := datedLines_after none a.dated
    rw [datedSection, hnone, linesAfter_groups hlists.dated_ascend]
    simp only [List.isEmpty_iff]
  have hundated : a.undatedSection = if a.undated = [] then []
      else ["## No Deadline", ""] ++ a.undated.map bullet ++ [""] := by
    rw [undatedSection]
    simp only [List.isEmpty_iff]
    rfl
  rw [text, hdated, hundated]
  rfl

end Agenda

end TaskOutline
