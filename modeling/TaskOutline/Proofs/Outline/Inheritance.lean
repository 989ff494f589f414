import Mathlib.Data.List.Nodup
import TaskOutline.Proofs.Outline.Subtrees

/-! # The nearest declaration

`Outline.settle` goes through the nodes in order and looks up the parent of each among
those that are settled.  A parent comes before its children, so that it is always there,
and every node is settled from its parent as the settled outline has it
(`Outline.nodes_settle`).

The value that holds for a node is that of the nearest declaration: the one with the
longest identifier among those that its own begins with, itself included
(`Outline.Inherits`).  A node without a declaration of its own has the nearest one in
common with its parent, which makes this an induction on the levels of the outline
(`Outline.Coherent.inherits`).  The argument is about any property that is settled by
`Declared.resolve`; priority and deadline are two of them.
-/
namespace TaskOutline

variable {α : Type}

/-! ## Declarations -/

/-- Something is declared about a property under an identifier: a value, or that there is
none. -/
def Outline.Declares (t : Outline) (property : Record → Declared α) (id : TaskId)
    (d : Declared α) : Prop :=
  d ≠ .unset ∧ ∃ n ∈ t.nodes, n.id = id ∧ ∃ r, n.record = some r ∧ property r = d

/-- The declaration under `p` is the nearest one for an identifier: among the declarations
under its beginnings it has the longest. -/
structure Outline.IsNearest (t : Outline) (property : Record → Declared α) (id p : TaskId)
    (d : Declared α) : Prop where
  begins : p.segments <+: id.segments
  declares : t.Declares property p d
  longest : ∀ q e, q.segments <+: id.segments → t.Declares property q e →
    q.segments.length ≤ p.segments.length

/-- What an identifier has of a property by the nearest declaration. -/
inductive Outline.Inherits (t : Outline) (property : Record → Declared α) (id : TaskId) :
    Option α → Prop where
  | value {p : TaskId} {a : α} :
    t.IsNearest property id p (.value a) → Inherits t property id (some a)
  | cleared {p : TaskId} : t.IsNearest property id p .cleared → Inherits t property id none
  | absent : (∀ q e, q.segments <+: id.segments → ¬ t.Declares property q e) →
    Inherits t property id none

/-- What a node declares about a property.  Without a record it declares nothing. -/
def Node.declared (property : Record → Declared α) (n : Node) : Declared α :=
  match n.record with
  | some r => property r
  | none => .unset

namespace Outline

variable {t : Outline} {property : Record → Declared α}

/-- A node declares under its identifier what its record says. -/
theorem declares_iff {n : Node} (hn : n ∈ t.nodes) {d : Declared α} :
    t.Declares property n.id d ↔ d ≠ .unset ∧ n.declared property = d := by
  constructor
  · rintro ⟨hd, m, hm, hid, r, hr, hdeclared⟩
    obtain rfl : m = n := List.inj_on_of_nodup_map t.ids_nodup hm hn hid
    exact ⟨hd, by rw [Node.declared, hr]; exact hdeclared⟩
  · rintro ⟨hd, hdeclared⟩
    cases hr : n.record with
    | none =>
      rw [Node.declared, hr] at hdeclared
      exact absurd hdeclared.symm hd
    | some r =>
      rw [Node.declared, hr] at hdeclared
      exact ⟨hd, n, hn, rfl, r, hr, hdeclared⟩

theorem Declares.unique {id : TaskId} {d e : Declared α} (hd : t.Declares property id d)
    (he : t.Declares property id e) : d = e := by
  obtain ⟨n, hn, rfl, -⟩ := hd.2
  exact ((declares_iff hn).mp hd).2.symm.trans ((declares_iff hn).mp he).2

/-- There is one nearest declaration at most. -/
theorem IsNearest.unique {id p q : TaskId} {d e : Declared α} (hp : t.IsNearest property id p d)
    (hq : t.IsNearest property id q e) : d = e := by
  have hle : p.segments.length ≤ q.segments.length := hq.longest p d hp.begins hp.declares
  have hge : q.segments.length ≤ p.segments.length := hp.longest q e hq.begins hq.declares
  have hbegins : p.segments <+: q.segments :=
    List.prefix_of_prefix_length_le hp.begins hq.begins hle
  obtain rfl : p = q := TaskId.ext (hbegins.eq_of_length_le hge)
  exact hp.declares.unique hq.declares

/-- **The nearest declaration determines the value.** -/
theorem Inherits.unique {id : TaskId} {v w : Option α} (hv : t.Inherits property id v)
    (hw : t.Inherits property id w) : v = w := by
  cases hv with
  | value hp =>
    cases hw with
    | value hq => cases hp.unique hq; rfl
    | cleared hq => cases hp.unique hq
    | absent hnone => exact absurd hp.declares (hnone _ _ hp.begins)
  | cleared hp =>
    cases hw with
    | value hq => cases hp.unique hq
    | cleared hq => rfl
    | absent hnone => rfl
  | absent hnone =>
    cases hw with
    | value hq => exact absurd hq.declares (hnone _ _ hq.begins)
    | cleared hq => rfl
    | absent hnone => rfl

/-! ## One level down -/

/-- What a node declares itself is the nearest declaration. -/
theorem isNearest_self {n : Node} (hn : n ∈ t.nodes) {d : Declared α} (hd : d ≠ .unset)
    (hdeclared : n.declared property = d) : t.IsNearest property n.id n.id d where
  begins := List.prefix_rfl
  declares := (declares_iff hn).mpr ⟨hd, hdeclared⟩
  longest _ _ hq _ := hq.length_le

/-- What is declared under a beginning of a node without a declaration is declared under a
proper one. -/
theorem prefix_dropLast_of_declares {n : Node} (hn : n ∈ t.nodes)
    (hunset : n.declared property = .unset) {q : TaskId} {e : Declared α}
    (hq : q.segments <+: n.id.segments) (he : t.Declares property q e) :
    q.segments <+: n.id.segments.dropLast := by
  refine TaskId.prefix_dropLast_iff.mpr ⟨hq, ?_⟩
  rintro rfl
  obtain ⟨hd, hdeclared⟩ := (declares_iff hn).mp he
  exact hd (hdeclared.symm.trans hunset)

/-- **A node that declares nothing has what its parent has.** -/
theorem Inherits.of_parent {n : Node} (hn : n ∈ t.nodes) (hunset : n.declared property = .unset)
    {p : TaskId} (hp : n.id.parent? = some p) {v : Option α} (h : t.Inherits property p v) :
    t.Inherits property n.id v := by
  have hsegments : p.segments = n.id.segments.dropLast := TaskId.segments_of_parent? hp
  have hup : p.segments <+: n.id.segments := hsegments ▸ List.dropLast_prefix _
  have hproper : ∀ q e, q.segments <+: n.id.segments → t.Declares property q e →
      q.segments <+: p.segments := by
    intro q e hq he
    rw [hsegments]
    exact prefix_dropLast_of_declares hn hunset hq he
  have hnearest : ∀ q d, t.IsNearest property p q d → t.IsNearest property n.id q d := by
    intro q d hq
    exact ⟨hq.begins.trans hup, hq.declares,
      fun q' e hq' he => hq.longest q' e (hproper q' e hq' he) he⟩
  cases h with
  | value hq => exact .value (hnearest _ _ hq)
  | cleared hq => exact .cleared (hnearest _ _ hq)
  | absent hnone => exact .absent fun q e hq he => hnone q e (hproper q e hq he) he

/-- At the top there is nothing to inherit. -/
theorem Inherits.of_top {n : Node} (hn : n ∈ t.nodes) (hunset : n.declared property = .unset)
    (htop : n.id.parent? = none) : t.Inherits property n.id none := by
  refine .absent fun q e hq he => ?_
  have hproper := prefix_dropLast_of_declares hn hunset hq he
  rw [TaskId.dropLast_of_top htop, List.prefix_nil] at hproper
  exact q.nonempty hproper

end Outline

/-! ## Settling -/

/-- From the front or from the back, what is found under an identifier that is not
repeated is the same. -/
theorem find?_reverse_of_nodup {key : α → TaskId} {xs : List α} (h : (xs.map key).Nodup)
    (id : TaskId) :
    xs.reverse.find? (fun x => key x = id) = xs.find? fun x => key x = id := by
  have hreverse : (xs.reverse.map key).Nodup := by
    rw [List.map_reverse]
    exact List.nodup_reverse.mpr h
  apply Option.ext
  intro x
  rw [find?_eq_some_iff_of_nodup hreverse, find?_eq_some_iff_of_nodup h, List.mem_reverse]

namespace Node

/-- A parent is found before its children, and from there on nowhere. -/
theorem find?_parent {settled later : List Node} {n : Node}
    (h : Ascending id (settled.reverse ++ n :: later)) :
    (n.id.parent?.bind fun id => (settled.reverse ++ n :: later).find? fun p => p.id = id) =
      n.id.parent?.bind fun id => settled.find? fun p => p.id = id := by
  cases hp : n.id.parent? with
  | none => rfl
  | some p =>
    obtain ⟨hbefore, hlater, -⟩ := List.pairwise_append.mp h
    have hlt : p < n.id := TaskId.lt_of_parent? hp
    have hafter : (n :: later).find? (fun q => q.id = p) = none := by
      simp only [List.find?_eq_none, decide_eq_true_eq]
      intro q hq hqp
      rcases List.mem_cons.mp hq with rfl | hq
      · exact TaskId.ne_of_lt hlt hqp.symm
      · have hnq : n.id < q.id := (List.pairwise_cons.mp hlater).1 q hq
        exact TaskId.lt_asymm hlt (hqp ▸ hnq)
    have hnodup : (settled.map id).Nodup := by
      have hreverse : (settled.reverse.map id).Nodup := Ascending.nodup_map hbefore
      rw [List.map_reverse] at hreverse
      exact List.nodup_reverse.mp hreverse
    show (settled.reverse ++ n :: later).find? (fun q => q.id = p) = settled.find? fun q => q.id = p
    rw [List.find?_append, hafter, Option.or_none, find?_reverse_of_nodup hnodup]

/-- **Each node is settled from its parent**, as this is found in the end. -/
theorem settleAll_eq_map {all : List Node} (hall : Ascending id all) {settled nodes : List Node}
    (h : settled.reverse ++ settleAll settled nodes = all) :
    settleAll settled nodes =
      nodes.map fun n => n.settle (n.id.parent?.bind fun id => all.find? fun p => p.id = id) := by
  induction nodes generalizing settled with
  | nil => rfl
  | cons n rest ih =>
    let parent := n.id.parent?.bind fun id => settled.find? fun p => p.id = id
    have hsplit : settled.reverse ++ n.settle parent ::
        settleAll (n.settle parent :: settled) rest = all := h
    have hparent : (n.id.parent?.bind fun id => all.find? fun p => p.id = id) = parent := by
      rw [← hsplit] at hall ⊢
      exact find?_parent hall
    have hrest : settleAll (n.settle parent :: settled) rest = _ := ih (by simpa using hsplit)
    rw [List.map_cons, hparent, ← hrest]
    rfl

end Node

namespace Outline

/-- A node of the outline, settled from its parent as the settled outline has it. -/
def settled (t : Outline) (n : Node) : Node := n.settle (n.id.parent?.bind t.settle.find?)

/-- **Every node is settled from its parent.** -/
theorem nodes_settle (t : Outline) : t.settle.nodes = t.nodes.map t.settled :=
  Node.settleAll_eq_map t.settle.ascending rfl

theorem find?_settle {t : Outline} {n : Node} (hn : n ∈ t.nodes) :
    t.settle.find? n.id = some (t.settled n) := by
  refine Outline.find?_eq_some_iff.mpr ⟨?_, rfl⟩
  rw [nodes_settle]
  exact List.mem_map_of_mem hn

/-- An outline that hangs together does so when it is settled. -/
theorem Coherent.settle {t : Outline} (h : t.Coherent) : t.settle.Coherent := by
  have hids : t.settle.ids = t.ids := Node.map_id_settleAll [] t.nodes
  refine ⟨hids ▸ h.closed, fun n hn => ?_, hids ▸ h.roots⟩
  rw [nodes_settle] at hn
  obtain ⟨m, hm, rfl⟩ := List.mem_map.mp hn
  rw [hids]
  exact h.children m hm

theorem coherent_ofRecords (records : List Record) : (ofRecords records).Coherent :=
  (coherent_build records).settle

/-! ## The values -/

section Values

variable {t : Outline} {property : Record → Declared α} {value : Node → Option α}
  (hvalue : ∀ (n : Node) (parent : Option Node),
    value (n.settle parent) = (n.declared property).resolve (parent.bind value))
include hvalue

/-- **What holds for a settled node is what it has by the nearest declaration.** -/
theorem Coherent.inherits (h : t.Coherent) {n : Node} (hn : n ∈ t.nodes) :
    t.Inherits property n.id (value (t.settled n)) := by
  have hresolve : value (t.settled n) = (n.declared property).resolve
      ((n.id.parent?.bind t.settle.find?).bind value) := hvalue n _
  cases hd : n.declared property with
  | value a =>
    rw [hresolve, hd]
    exact .value (isNearest_self hn (by simp) hd)
  | cleared =>
    rw [hresolve, hd]
    exact .cleared (isNearest_self hn (by simp) hd)
  | unset =>
    cases hp : n.id.parent? with
    | none =>
      rw [hresolve, hd, hp]
      exact .of_top hn hd hp
    | some p =>
      obtain ⟨m, hm, rfl⟩ := h.exists_parent hn hp
      -- the parent is one level up, and has its value by the nearest declaration
      have ih : t.Inherits property m.id (value (t.settled m)) := h.inherits hm
      rw [hresolve, hd, hp]
      show t.Inherits property n.id ((t.settle.find? m.id).bind value)
      rw [find?_settle hm]
      exact ih.of_parent hn hd hp
termination_by n.id.segments.length
decreasing_by exact TaskId.length_parent?_lt hp

theorem Coherent.inherits_iff (h : t.Coherent) {n : Node} (hn : n ∈ t.settle.nodes)
    (v : Option α) : t.Inherits property n.id v ↔ value n = v := by
  rw [nodes_settle] at hn
  obtain ⟨m, hm, rfl⟩ := List.mem_map.mp hn
  have hinherits : t.Inherits property m.id (value (t.settled m)) := h.inherits hvalue hm
  constructor
  · exact hinherits.unique
  · rintro rfl
    exact hinherits

end Values

end Outline

end TaskOutline
