import Mathlib.Data.List.Nodup
import TaskOutline.Proofs.Identifier.Order
import TaskOutline.Proofs.Outline.Reach

/-! # Dependency cycles are reported exactly

To be on a cycle together is to depend on one another (`Outline.Mutual`), which is a
symmetric and transitive relation.  The cycles of an outline are its classes
(`Dependencies.cycles_eq_classes`), and what is said of them holds of the classes of any
such relation on an ascending list: each is ascending, no two share a task, and they come
in the order of their first tasks.

Cycles may also be found by way of the strongly connected components of the dependencies,
whatever procedure gives these: the components of more than one task and those of a task
that depends on itself, sorted, are the cycles again (`Dependencies.cyclesAmong_eq`).
-/
namespace TaskOutline

open Relation

/-! ## The classes of a relation -/

section Classes

variable (R : TaskId → TaskId → Prop) [DecidableRel R]

/-- The identifiers that one is related to, in order. -/
def related (ids : List TaskId) (id : TaskId) : List TaskId := ids.filter fun other => R id other

/-- The classes of a relation among identifiers, each in order, and each where its first
member stands. -/
def classes (ids : List TaskId) : List (List TaskId) :=
  ids.filterMap fun id =>
    if (related R ids id).head? = some id then some (related R ids id) else none

variable {R} {ids : List TaskId} {c d : List TaskId} {a b id : TaskId}

theorem mem_related_iff : b ∈ related R ids a ↔ b ∈ ids ∧ R a b := by
  rw [related, List.mem_filter, decide_eq_true_eq]

theorem ascending_related (hids : ids.Pairwise (· < ·)) : (related R ids a).Pairwise (· < ·) :=
  hids.filter _

variable (hsymm : ∀ a b, R a b → R b a) (htrans : ∀ a b c, R a b → R b c → R a c)
include hsymm htrans

/-- Related identifiers have the same class. -/
theorem related_congr (h : R a b) : related R ids a = related R ids b := by
  refine List.filter_congr fun other _ => ?_
  have hiff : R a other ↔ R b other :=
    ⟨fun ha => htrans b a other (hsymm a b h) ha, fun hb => htrans a b other h hb⟩
  simp only [hiff]

theorem mem_classes_iff : c ∈ classes R ids ↔ ∃ id ∈ ids, R id id ∧ c = related R ids id := by
  simp only [classes, List.mem_filterMap, Option.ite_none_right_eq_some, Option.some.injEq]
  constructor
  · rintro ⟨id, hid, hhead, rfl⟩
    obtain ⟨-, hself⟩ := mem_related_iff.mp (List.mem_of_mem_head? hhead)
    exact ⟨id, hid, hself, rfl⟩
  · rintro ⟨id, hid, hself, rfl⟩
    -- the class stands where its first member does
    have hne : related R ids id ≠ [] := List.ne_nil_of_mem (mem_related_iff.mpr ⟨hid, hself⟩)
    obtain ⟨first, hfirst⟩ := Option.isSome_iff_exists.mp (List.isSome_head?.mpr hne)
    obtain ⟨hmem, hrel⟩ := mem_related_iff.mp (List.mem_of_mem_head? hfirst)
    have hsame : related R ids id = related R ids first := related_congr hsymm htrans hrel
    exact ⟨first, hmem, hsame ▸ hfirst, hsame.symm⟩

/-- A class has all that its members are related to. -/
theorem eq_related_of_mem (hc : c ∈ classes R ids) (ha : a ∈ c) : c = related R ids a := by
  obtain ⟨id, -, -, rfl⟩ := (mem_classes_iff hsymm htrans).mp hc
  exact related_congr hsymm htrans (mem_related_iff.mp ha).2

theorem classes_ne_nil (hc : c ∈ classes R ids) : c ≠ [] := by
  obtain ⟨id, hid, hself, rfl⟩ := (mem_classes_iff hsymm htrans).mp hc
  exact List.ne_nil_of_mem (mem_related_iff.mpr ⟨hid, hself⟩)

/-- Two identifiers are in one class exactly when they are related. -/
theorem exists_mem_classes_iff :
    (∃ c ∈ classes R ids, a ∈ c ∧ b ∈ c) ↔ a ∈ ids ∧ b ∈ ids ∧ R a b := by
  constructor
  · rintro ⟨c, hc, ha, hb⟩
    rw [eq_related_of_mem hsymm htrans hc ha] at hb
    obtain ⟨id, -, -, rfl⟩ := (mem_classes_iff hsymm htrans).mp hc
    exact ⟨(mem_related_iff.mp ha).1, mem_related_iff.mp hb⟩
  · rintro ⟨ha, hb, hab⟩
    have hself : R a a := htrans a b a hab (hsymm a b hab)
    exact ⟨related R ids a, (mem_classes_iff hsymm htrans).mpr ⟨a, ha, hself, rfl⟩,
      mem_related_iff.mpr ⟨ha, hself⟩, mem_related_iff.mpr ⟨hb, hab⟩⟩

omit hsymm htrans in
/-- The classes come in the order of their first members. -/
theorem pairwise_heads_classes (hids : ids.Pairwise (· < ·)) :
    (classes R ids).Pairwise fun c d => ∃ a b, c.head? = some a ∧ d.head? = some b ∧ a < b := by
  refine List.pairwise_filterMap.mpr (hids.imp ?_)
  intro a b hlt c hc d hd
  obtain ⟨ha, hac⟩ := Option.ite_none_right_eq_some.mp hc
  obtain ⟨hb, hbd⟩ := Option.ite_none_right_eq_some.mp hd
  obtain rfl := Option.some.inj hac
  obtain rfl := Option.some.inj hbd
  exact ⟨a, b, ha, hb, hlt⟩

omit hsymm htrans in
theorem pairwise_lt_classes (hids : ids.Pairwise (· < ·)) :
    (classes R ids).Pairwise (· < ·) := by
  refine (pairwise_heads_classes hids).imp ?_
  rintro c d ⟨a, b, hc, hd, hlt⟩
  obtain ⟨cs, rfl⟩ := List.head?_eq_some_iff.mp hc
  obtain ⟨ds, rfl⟩ := List.head?_eq_some_iff.mp hd
  exact List.Lex.rel hlt

theorem pairwise_disjoint_classes (hids : ids.Pairwise (· < ·)) :
    (classes R ids).Pairwise List.Disjoint := by
  refine (pairwise_heads_classes hids).imp_of_mem ?_
  rintro c d hc hd ⟨a, b, hca, hdb, hlt⟩ x hxc hxd
  -- with a member in common the two are the same, and begin alike
  have hsame : c = d := by
    rw [eq_related_of_mem hsymm htrans hc hxc, eq_related_of_mem hsymm htrans hd hxd]
  rw [hsame, hdb] at hca
  exact TaskId.ne_of_lt hlt (Option.some.inj hca).symm

end Classes

/-! ## Cycles -/

/-- Two tasks depend on one another, directly or by way of others. -/
def Outline.Mutual (t : Outline) (a b : TaskId) : Prop :=
  TransGen t.DependsOn a b ∧ TransGen t.DependsOn b a

namespace Outline

variable {t : Outline} {a b c : TaskId}

theorem mutual_symm (a b : TaskId) (h : t.Mutual a b) : t.Mutual b a := ⟨h.2, h.1⟩

theorem mutual_trans (a b c : TaskId) (hab : t.Mutual a b) (hbc : t.Mutual b c) : t.Mutual a c :=
  ⟨hab.1.trans hbc.1, hbc.2.trans hab.2⟩

theorem Mutual.mem_ids (h : t.Mutual a b) : a ∈ t.ids ∧ b ∈ t.ids :=
  ⟨DependsOn.mem_ids h.2, DependsOn.mem_ids h.1⟩

theorem mutual_iff_closure : t.Mutual a b ↔
    b ∈ (Dependencies.ofOutline t).value.closure a ∧
      a ∈ (Dependencies.ofOutline t).value.closure b := by
  rw [Dependencies.mem_closure_ofOutline_iff, Dependencies.mem_closure_ofOutline_iff]
  rfl

instance (t : Outline) : DecidableRel t.Mutual := fun _ _ => decidable_of_iff' _ mutual_iff_closure

end Outline

namespace Dependencies

/-- **The cycles are the classes of tasks that depend on one another.** -/
theorem cycles_eq_classes (t : Outline) :
    (ofOutline t).value.cycles = classes t.Mutual t.ids := by
  have hclass : ∀ id, ((t.ids.map fun other => (other, (ofOutline t).value.closure other)).filter
      fun p => p.1 ∈ (ofOutline t).value.closure id ∧ id ∈ p.2).map Prod.fst =
        related t.Mutual t.ids id := by
    intro id
    rw [List.filter_map, List.map_map, related]
    refine (List.map_id' _).trans (List.filter_congr fun other _ => ?_)
    simp [Outline.mutual_iff_closure]
  simp only [cycles, ids_ofOutline, List.filterMap_map, classes]
  refine congrArg (List.filterMap · t.ids) (funext fun id => ?_)
  simp only [Function.comp_apply, hclass]

variable {t : Outline} {a b id : TaskId} {c : List TaskId}

/-- Two tasks are on one cycle exactly when they depend on one another. -/
theorem exists_mem_cycles_iff :
    (∃ c ∈ (ofOutline t).value.cycles, a ∈ c ∧ b ∈ c) ↔ t.Mutual a b := by
  rw [cycles_eq_classes, exists_mem_classes_iff Outline.mutual_symm Outline.mutual_trans]
  constructor
  · rintro ⟨-, -, h⟩
    exact h
  · intro h
    exact ⟨h.mem_ids.1, h.mem_ids.2, h⟩

theorem mem_cycles_iff :
    c ∈ (ofOutline t).value.cycles ↔ ∃ id, t.Mutual id id ∧ c = related t.Mutual t.ids id := by
  rw [cycles_eq_classes, mem_classes_iff Outline.mutual_symm Outline.mutual_trans]
  constructor
  · rintro ⟨id, -, hself, rfl⟩
    exact ⟨id, hself, rfl⟩
  · rintro ⟨id, hself, rfl⟩
    exact ⟨id, hself.mem_ids.1, hself, rfl⟩

/-- A task on a cycle with no other task is a cycle of its own. -/
theorem singleton_mem_cycles (hself : t.Mutual id id) (honly : ∀ b, t.Mutual id b → b = id) :
    [id] ∈ (ofOutline t).value.cycles := by
  refine mem_cycles_iff.mpr ⟨id, hself, ?_⟩
  have hrelated : Ascending (fun id => id) (related t.Mutual t.ids id) :=
    ascending_related t.ascending_ids
  have hsingle : Ascending (fun id => id) [id] := List.pairwise_singleton _ _
  refine hsingle.ext hrelated fun b => ?_
  rw [List.mem_singleton, mem_related_iff]
  constructor
  · rintro rfl
    exact ⟨hself.mem_ids.1, hself⟩
  · rintro ⟨-, hb⟩
    exact honly b hb

end Dependencies

/-! ## Cycles among components -/

/-- The lists are the strongly connected components of the dependencies: each node is in
one of them, once, and with it those tasks that lead to it and that it leads to. -/
structure Outline.Components (t : Outline) (components : List (List TaskId)) : Prop where
  nodes : components.flatten.Perm t.ids
  nonempty : ∀ c ∈ components, c ≠ []
  together : ∀ c ∈ components, ∀ a ∈ c, ∀ b ∈ t.ids,
    b ∈ c ↔ ReflTransGen t.DependsOn a b ∧ ReflTransGen t.DependsOn b a

namespace Outline

/-- Every outline has components. -/
theorem exists_components (t : Outline) : ∃ components, t.Components components := by
  classical
  let R := fun a b => ReflTransGen t.DependsOn a b ∧ ReflTransGen t.DependsOn b a
  have hsymm : ∀ a b, R a b → R b a := fun _ _ h => ⟨h.2, h.1⟩
  have htrans : ∀ a b c, R a b → R b c → R a c :=
    fun _ _ _ hab hbc => ⟨hab.1.trans hbc.1, hbc.2.trans hab.2⟩
  have hids : t.ids.Pairwise (· < ·) := t.ascending_ids
  refine ⟨classes R t.ids, ?_, fun c hc => classes_ne_nil hsymm htrans hc, ?_⟩
  · have hnodup : (classes R t.ids).flatten.Nodup := by
      refine List.nodup_flatten.mpr ⟨fun c hc => ?_, pairwise_disjoint_classes hsymm htrans hids⟩
      obtain ⟨id, -, -, rfl⟩ := (mem_classes_iff hsymm htrans).mp hc
      exact (ascending_related hids).imp TaskId.ne_of_lt
    refine (List.perm_ext_iff_of_nodup hnodup t.ids_nodup).mpr fun id => ?_
    rw [List.mem_flatten]
    constructor
    · rintro ⟨c, hc, hid⟩
      exact ((exists_mem_classes_iff hsymm htrans).mp ⟨c, hc, hid, hid⟩).1
    · intro hid
      obtain ⟨c, hc, hmem, -⟩ := (exists_mem_classes_iff hsymm htrans).mpr
        ⟨hid, hid, ReflTransGen.refl, ReflTransGen.refl⟩
      exact ⟨c, hc, hmem⟩
  · intro c hc a ha b hb
    rw [eq_related_of_mem hsymm htrans hc ha, mem_related_iff]
    exact and_iff_right hb

end Outline

namespace Dependencies

/-- The cycles among components: those of more than one task, and those of one that
depends on itself.  Each is sorted, and so are they all. -/
def cyclesAmong (g : Dependencies) (components : List (List TaskId)) : List (List TaskId) :=
  let cyclic := components.filter fun c => 1 < c.length || c.head?.any fun id => id ∈ g.of id
  (cyclic.map fun c => c.mergeSort fun a b => !decide (b < a)).mergeSort fun c d => !decide (d < c)

/-- A step from a task and a way back make a cycle. -/
theorem mutual_self_of_step {t : Outline} {a b : TaskId} (hab : t.DependsOn a b)
    (hba : ReflTransGen t.DependsOn b a) : t.Mutual a a :=
  ⟨TransGen.head' hab hba, TransGen.head' hab hba⟩

variable {t : Outline} {components : List (List TaskId)} {c : List TaskId} {a : TaskId}

/-- A component is on a cycle when it has more than one task, or a task that depends on
itself. -/
theorem cyclic_iff (h : t.Components components) (hc : c ∈ components) (ha : a ∈ c) :
    (1 < c.length || c.head?.any fun id => id ∈ (ofOutline t).value.of id) = true ↔
      t.Mutual a a := by
  have hnodup : c.Nodup := (List.nodup_flatten.mp (h.nodes.nodup_iff.mpr t.ids_nodup)).1 c hc
  have hnode : ∀ x ∈ c, x ∈ t.ids := fun x hx =>
    h.nodes.mem_iff.mp (List.mem_flatten.mpr ⟨c, hc, hx⟩)
  -- from another task of the component there is a way there and back
  have hother : ∀ b ∈ c, b ≠ a → t.Mutual a a := by
    intro b hb hne
    obtain ⟨hab, hba⟩ := (h.together c hc a ha b (hnode b hb)).mp hb
    rcases reflTransGen_iff_eq_or_transGen.mp hab with heq | htrans
    · exact absurd heq hne
    · exact ⟨htrans.trans_left hba, htrans.trans_left hba⟩
  cases c with
  | nil => cases ha
  | cons x xs =>
    cases xs with
    | nil =>
      obtain rfl := List.mem_singleton.mp ha
      simp only [List.length_singleton, Nat.lt_irrefl, decide_false, Bool.false_or,
        List.head?_cons, Option.any_some, decide_eq_true_eq, mem_of_iff]
      constructor
      · intro hstep
        exact mutual_self_of_step hstep .refl
      · rintro ⟨hself, -⟩
        -- whatever comes first on the way back is in the component, and so the task itself
        obtain ⟨b, hab, hba⟩ := TransGen.head'_iff.mp hself
        have hnode : b ∈ t.ids := Outline.DependsOn.mem_ids (.single hab)
        have hb : b ∈ [a] := (h.together [a] hc a ha b hnode).mpr ⟨.single hab, hba⟩
        rwa [List.mem_singleton.mp hb] at hab
    | cons y ys =>
      have hxy : x ≠ y := fun heq => (List.nodup_cons.mp hnodup).1 (heq ▸ List.mem_cons_self)
      have hmutual : t.Mutual a a := by
        by_cases hxa : x = a
        · subst hxa
          exact hother y (List.mem_cons_of_mem x List.mem_cons_self) hxy.symm
        · exact hother x List.mem_cons_self hxa
      simp [hmutual]

/-- A component on a cycle, sorted, is the cycle. -/
theorem mergeSort_component (h : t.Components components) (hc : c ∈ components) (ha : a ∈ c)
    (hself : t.Mutual a a) :
    c.mergeSort (fun a b => !decide (b < a)) = related t.Mutual t.ids a := by
  have hnodup : c.Nodup := (List.nodup_flatten.mp (h.nodes.nodup_iff.mpr t.ids_nodup)).1 c hc
  have hascending : (related t.Mutual t.ids a).Pairwise (· < ·) := ascending_related t.ascending_ids
  refine mergeSort_eq_of_perm ?_ hascending
  refine (List.perm_ext_iff_of_nodup hnodup (hascending.imp TaskId.ne_of_lt)).mpr fun b => ?_
  rw [mem_related_iff]
  constructor
  · intro hb
    have hnode : b ∈ t.ids := h.nodes.mem_iff.mp (List.mem_flatten.mpr ⟨c, hc, hb⟩)
    obtain ⟨hab, hba⟩ := (h.together c hc a ha b hnode).mp hb
    exact ⟨hnode, hself.1.trans_left hab, TransGen.trans_right hba hself.1⟩
  · rintro ⟨hnode, hab, hba⟩
    exact (h.together c hc a ha b hnode).mpr ⟨hab.to_reflTransGen, hba.to_reflTransGen⟩

/-- **The cycles can be read off the components**, in whatever order these come. -/
theorem cyclesAmong_eq (h : t.Components components) :
    (ofOutline t).value.cyclesAmong components = (ofOutline t).value.cycles := by
  have hcycles : (ofOutline t).value.cycles.Pairwise (· < ·) :=
    cycles_eq_classes t ▸ pairwise_lt_classes t.ascending_ids
  refine mergeSort_eq_of_perm ((List.perm_ext_iff_of_nodup ?_ ?_).mpr ?_) hcycles
  · -- components that sort to the same list have a task in common
    have hdisjoint := (List.nodup_flatten.mp (h.nodes.nodup_iff.mpr t.ids_nodup)).2
    refine List.pairwise_map.mpr ((hdisjoint.imp_of_mem ?_).filter _)
    intro c d hc hd hcd heq
    obtain ⟨x, xs, rfl⟩ := List.exists_cons_of_ne_nil (h.nonempty c hc)
    have hx : x ∈ (x :: xs).mergeSort fun a b => !decide (b < a) :=
      List.mem_mergeSort.mpr List.mem_cons_self
    rw [heq, List.mem_mergeSort] at hx
    exact hcd List.mem_cons_self hx
  · refine hcycles.imp ?_
    rintro c d hlt rfl
    exact List.lt_irrefl c hlt
  · intro cycle
    simp only [List.mem_map, List.mem_filter]
    rw [mem_cycles_iff]
    constructor
    · rintro ⟨c, ⟨hc, hcyclic⟩, rfl⟩
      obtain ⟨a, xs, rfl⟩ := List.exists_cons_of_ne_nil (h.nonempty c hc)
      have hself : t.Mutual a a := (cyclic_iff h hc List.mem_cons_self).mp hcyclic
      exact ⟨a, hself, mergeSort_component h hc List.mem_cons_self hself⟩
    · rintro ⟨a, hself, rfl⟩
      obtain ⟨c, hc, ha⟩ := List.mem_flatten.mp (h.nodes.mem_iff.mpr hself.mem_ids.1)
      exact ⟨c, ⟨hc, (cyclic_iff h hc ha).mpr hself⟩, mergeSort_component h hc ha hself⟩

/-! ## Warnings -/

/-- What depends on itself has been declared: a node without a record depends on nothing. -/
theorem exists_record_of_mutual (h : t.Mutual a a) :
    ∃ n ∈ t.nodes, n.id = a ∧ ∃ r, n.record = some r := by
  obtain ⟨b, ⟨n, hn, -, -, hid, -, hb⟩, -⟩ := TransGen.head'_iff.mp h.1
  refine ⟨n, hn, hid, ?_⟩
  cases hr : n.record with
  | none => simp [Node.depends, hr] at hb
  | some r => exact ⟨r, rfl⟩

/-- The warning about a cycle stands at the record of its first task. -/
theorem cycleWarning_eq (hc : c ∈ (ofOutline t).value.cycles) :
    ∃ n ∈ t.nodes, ∃ r, n.record = some r ∧ c.head? = some n.id ∧
      cycleWarning t c = ⟨.warning, some r.location, .dependencyCycle c⟩ := by
  obtain ⟨id, hself, hrelated⟩ := mem_cycles_iff.mp hc
  have hne : c ≠ [] := by
    rw [hrelated]
    exact List.ne_nil_of_mem (mem_related_iff.mpr ⟨hself.mem_ids.1, hself⟩)
  obtain ⟨first, rest, rfl⟩ := List.exists_cons_of_ne_nil hne
  have hfirst : t.Mutual first first :=
    exists_mem_cycles_iff.mp ⟨_, hc, List.mem_cons_self, List.mem_cons_self⟩
  obtain ⟨n, hn, rfl, r, hr⟩ := exists_record_of_mutual hfirst
  have hfind : t.find? n.id = some n := Outline.find?_eq_some_iff.mpr ⟨hn, rfl⟩
  refine ⟨n, hn, r, hr, rfl, ?_⟩
  simp [cycleWarning, hfind, Node.location?, hr]

theorem filter_kind_check (t : Outline) :
    ((check t).log.filter fun d => d.problem.kind = "dependency-cycle") =
      (ofOutline t).value.cycles.map (cycleWarning t) := by
  have hmissing : ((ofOutline t).log.filter fun d => d.problem.kind = "dependency-cycle") = [] := by
    refine List.filter_eq_nil_iff.mpr fun d hd => ?_
    rw [log_eq_map] at hd
    obtain ⟨pair, -, rfl⟩ := List.mem_map.mp hd
    simp [Problem.kind, nodeReport]
  have hcycles : (((ofOutline t).value.cycles.map (cycleWarning t)).filter
      fun d => d.problem.kind = "dependency-cycle") =
        (ofOutline t).value.cycles.map (cycleWarning t) := by
    refine List.filter_eq_self.mpr fun d hd => ?_
    obtain ⟨cycle, -, rfl⟩ := List.mem_map.mp hd
    simp [Problem.kind, cycleWarning]
  show ((ofOutline t).log ++ (ofOutline t).value.cycles.map (cycleWarning t)).filter _ = _
  rw [List.filter_append, hmissing, hcycles, List.nil_append]

/-- **Dependency cycles are reported exactly.**  The cycles are lists of tasks in order,
none empty and no two with a task in common, and they come in order themselves.  A task
is on one when it depends on itself, directly or by way of others, and two tasks are on
the same when each depends on the other; a task that only depends on itself is on a cycle
of its own.  They are what comes of sorting the strongly connected components, which
every outline has.  The check gives one warning for each, in that order, at the record of
its first task, and reports cycles in no other way. -/
theorem cycles_exact (t : Outline) :
    let g := (ofOutline t).value
    (g.cycles.Pairwise List.Disjoint ∧ g.cycles.Pairwise (· < ·) ∧
      ∀ c ∈ g.cycles, c ≠ [] ∧ c.Pairwise (· < ·)) ∧
    (∀ id, (∃ c ∈ g.cycles, id ∈ c) ↔ TransGen t.DependsOn id id) ∧
    (∀ a b, (∃ c ∈ g.cycles, a ∈ c ∧ b ∈ c) ↔
      TransGen t.DependsOn a b ∧ TransGen t.DependsOn b a) ∧
    (∀ id, t.DependsOn id id →
      (∀ other, TransGen t.DependsOn id other → TransGen t.DependsOn other id → other = id) →
        [id] ∈ g.cycles) ∧
    ((∃ components, t.Components components) ∧
      ∀ components, t.Components components → g.cyclesAmong components = g.cycles) ∧
    ((check t).log.filter fun d => d.problem.kind = "dependency-cycle") =
      g.cycles.map (cycleWarning t) ∧
    ∀ c ∈ g.cycles, ∃ n ∈ t.nodes, ∃ r, n.record = some r ∧ c.head? = some n.id ∧
      cycleWarning t c = ⟨.warning, some r.location, .dependencyCycle c⟩ := by
  intro g
  have hids : t.ids.Pairwise (· < ·) := t.ascending_ids
  have hclasses : g.cycles = classes t.Mutual t.ids := cycles_eq_classes t
  refine ⟨⟨?_, ?_, ?_⟩, ?_, fun a b => exists_mem_cycles_iff, ?_,
    ⟨t.exists_components, fun components h => cyclesAmong_eq h⟩, filter_kind_check t,
    fun c hc => cycleWarning_eq hc⟩
  · rw [hclasses]
    exact pairwise_disjoint_classes Outline.mutual_symm Outline.mutual_trans hids
  · rw [hclasses]
    exact pairwise_lt_classes hids
  · intro c hc
    obtain ⟨id, hself, rfl⟩ := mem_cycles_iff.mp hc
    refine ⟨?_, ascending_related hids⟩
    exact List.ne_nil_of_mem (mem_related_iff.mpr ⟨hself.mem_ids.1, hself⟩)
  · intro id
    have hself : t.Mutual id id ↔ TransGen t.DependsOn id id := ⟨fun h => h.1, fun h => ⟨h, h⟩⟩
    rw [← hself, ← exists_mem_cycles_iff]
    simp only [and_self]
    rfl
  · intro id hstep honly
    exact singleton_mem_cycles ⟨.single hstep, .single hstep⟩ fun other h => honly other h.1 h.2

end Dependencies

end TaskOutline
