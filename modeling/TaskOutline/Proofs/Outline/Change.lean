import TaskOutline.Proofs.Outline.DependencyGraph

/-! # Records changed in place

Which nodes an outline has, how they lie, and which values hold for them depends on
the identifiers and the declarations of its records, and not on their notes and
locations.  So a change to these two (`KeepsDeclaration`) may be made before the
outline is built or after, with the same result (`ofRecords_change`), and what is
known of dependencies stays as it is.
-/
namespace TaskOutline

/-- A change to records that leaves alone what they declare.  Notes and locations may
become others. -/
structure KeepsDeclaration (g : Record → Record) : Prop where
  id : ∀ r, (g r).id = r.id
  label : ∀ r, (g r).label = r.label
  status : ∀ r, (g r).status = r.status
  priority : ∀ r, (g r).priority = r.priority
  deadline : ∀ r, (g r).deadline = r.deadline
  depends : ∀ r, (g r).depends = r.depends

/-- The node with its record changed. -/
def Node.change (g : Record → Record) (n : Node) : Node := { n with record := n.record.map g }

/-- The outline with its records changed. -/
def Outline.change (g : Record → Record) (t : Outline) : Outline :=
  { t with
    nodes := t.nodes.map (Node.change g)
    ascending := Ascending.congr (by rw [List.map_map]; rfl) t.ascending }

/-- The roster with its records changed. -/
def Roster.change (g : Record → Record) (s : Roster) : Roster where
  entries := s.entries.map fun e => (e.1, e.2.map g)
  ascending := Ascending.congr (by rw [List.map_map]; rfl) s.ascending

variable {g : Record → Record} (hg : KeepsDeclaration g)
include hg

/-! ## Building -/

theorem find?_change (records : List Record) (id : TaskId) :
    (records.map g).find? (fun r => r.id = id) = (records.find? fun r => r.id = id).map g := by
  rw [List.find?_map]
  congr 2
  funext r
  simp [hg.id]

theorem entryOf_change (records : List Record) (id : TaskId) :
    entryOf (records.map g) id = (entryOf records id).map (Option.map g) := by
  have hany : ((records.map g).any fun r => id ∈ r.id.ancestors) =
      records.any fun r => id ∈ r.id.ancestors := by
    rw [List.any_map]
    congr 1
    funext r
    simp [hg.id]
  unfold entryOf
  rw [find?_change hg, hany]
  cases records.find? fun r => r.id = id with
  | some r => rfl
  | none => cases records.any fun r => id ∈ r.id.ancestors <;> rfl

omit hg in
theorem Roster.find?_change (s : Roster) (id : TaskId) :
    (s.change g).find? id = (s.find? id).map (Option.map g) := by
  unfold Roster.find? Roster.change
  rw [List.find?_map, Option.map_map, Option.map_map]
  rfl

theorem Roster.ofRecords_change (records : List Record) :
    (Roster.ofRecords (records.map g)).value = (Roster.ofRecords records).value.change g := by
  refine Roster.ext_find? fun id => ?_
  rw [Roster.find?_change, Roster.find?_ofRecords, Roster.find?_ofRecords, entryOf_change hg]

omit hg in
theorem Outline.ofRoster_change (s : Roster) :
    Outline.ofRoster (s.change g) = (Outline.ofRoster s).change g := by
  have hids : (s.change g).entries.map Prod.fst = s.entries.map Prod.fst := by
    unfold Roster.change
    rw [List.map_map]
    rfl
  unfold Outline.ofRoster Outline.change
  simp only [hids, Outline.mk.injEq, and_true]
  unfold Roster.change
  rw [List.map_map, List.map_map]
  rfl

/-! ## Settling -/

theorem Node.settle_change (parent : Option Node) (n : Node) :
    (n.change g).settle (parent.map (Node.change g)) = (n.settle parent).change g := by
  have hpriority : (n.change g).declaredPriority = n.declaredPriority := by
    unfold Node.declaredPriority Node.change
    cases n.record with
    | none => rfl
    | some r => exact hg.priority r
  have hdeadline : (n.change g).declaredDeadline = n.declaredDeadline := by
    unfold Node.declaredDeadline Node.change
    cases n.record with
    | none => rfl
    | some r => exact hg.deadline r
  unfold Node.settle
  rw [hpriority, hdeadline]
  cases parent <;> rfl

theorem Node.settleAll_change (settled nodes : List Node) :
    Node.settleAll (settled.map (Node.change g)) (nodes.map (Node.change g)) =
      (Node.settleAll settled nodes).map (Node.change g) := by
  induction nodes generalizing settled with
  | nil => rfl
  | cons n rest ih =>
    -- the parent is looked up among the settled nodes, which are changed as well
    have hparent : ((n.change g).id.parent?.bind fun id =>
        (settled.map (Node.change g)).find? fun p => p.id = id) =
        (n.id.parent?.bind fun id => settled.find? fun p => p.id = id).map (Node.change g) := by
      show (n.id.parent?.bind _) = _
      cases n.id.parent? with
      | none => rfl
      | some id => exact List.find?_map
    rw [List.map_cons]
    simp only [Node.settleAll, List.map_cons]
    rw [hparent, Node.settle_change hg]
    congr 1
    exact ih (_ :: settled)

theorem Outline.settle_change (t : Outline) : (t.change g).settle = t.settle.change g := by
  unfold Outline.settle Outline.change
  simp only [Outline.mk.injEq, and_true]
  exact Node.settleAll_change hg [] t.nodes

/-- **Changing records and building their outline can be done in either order.** -/
theorem Outline.ofRecords_change (records : List Record) :
    Outline.ofRecords (records.map g) = (Outline.ofRecords records).change g := by
  show (Outline.ofRoster (Roster.ofRecords (records.map g)).value).settle =
    (Outline.ofRoster (Roster.ofRecords records).value).settle.change g
  rw [Roster.ofRecords_change hg, Outline.ofRoster_change, Outline.settle_change hg]

/-! ## What is read off a node -/

namespace Node

theorem label?_change (n : Node) : (n.change g).label? = n.label? := by
  unfold label? change
  cases n.record with
  | none => rfl
  | some r => exact hg.label r

theorem status_change (n : Node) : (n.change g).status = n.status := by
  unfold status change
  cases n.record with
  | none => rfl
  | some r => exact congrArg (·.getD .todo) (hg.status r)

theorem isComplete_change (n : Node) : (n.change g).isComplete = n.isComplete := by
  rw [isComplete, status_change hg, isComplete]

theorem depends_change (n : Node) : (n.change g).depends = n.depends := by
  unfold depends change
  cases n.record with
  | none => rfl
  | some r => exact congrArg IdSet.toList (hg.depends r)

theorem heading_change (n : Node) : (n.change g).heading = n.heading := by
  rw [heading, label?_change hg, heading]
  rfl

end Node

/-! ## Dependencies -/

omit hg in
theorem Outline.find?_change (t : Outline) (id : TaskId) :
    (t.change g).find? id = (t.find? id).map (Node.change g) :=
  List.find?_map

omit hg in
theorem Outline.contains_change (t : Outline) (id : TaskId) :
    (t.change g).contains id = t.contains id := by
  rw [Outline.contains, Outline.find?_change, Option.isSome_map]
  rfl

namespace Dependencies

omit hg in
theorem bare_change (t : Outline) : bare (t.change g) = bare t := by
  have hids : (t.change g).ids = t.ids := by
    show (t.nodes.map (Node.change g)).map Node.id = _
    rw [List.map_map]
    rfl
  rw [bare, hids, bare]

theorem value_ofOutline_change (t : Outline) :
    (ofOutline (t.change g)).value = (ofOutline t).value := by
  rw [ofOutline_eq, ofOutline_eq, bare_change]
  show (bare t).withEdges ((t.nodes.map (Node.change g)).flatMap _) = _
  rw [List.flatMap_map]
  refine congrArg (fun edges => (bare t).withEdges (List.flatMap edges t.nodes)) ?_
  funext n
  rw [edgesOf, Node.depends_change hg]
  rfl

theorem danglingPairs_change (t : Outline) : danglingPairs (t.change g) = danglingPairs t := by
  unfold danglingPairs
  show (t.nodes.map (Node.change g)).flatMap _ = _
  rw [List.flatMap_map]
  refine congrArg (List.flatMap · t.nodes) (funext fun n => ?_)
  rw [Node.depends_change hg]
  simp only [Outline.contains_change]
  rfl

end Dependencies

end TaskOutline
