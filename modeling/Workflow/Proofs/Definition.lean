import Workflow.Graph.Loops
import Workflow.Proofs.Lists
/-!
# Looking up nodes and edges

What the look-ups of a definition find, said by membership: the edges of a node, its neighbours in
both directions, and the node of a name.  Names of nodes differ, so a name has one node.
-/
namespace Workflow

/-- A node without configuration; that its names are not blank is checked where it is written. -/
def Node.plain (id kind : String) (hid : Text.isBlank id = false := by exact Eq.refl false)
    (hkind : Text.isBlank kind = false := by exact Eq.refl false) : Node :=
  ⟨id, kind, .empty, hid, hkind⟩

/-- An edge without a condition, checked where it is written. -/
def Edge.plain (id : String) (source target : NodeId)
    (hid : Text.isBlank id = false := by exact Eq.refl false)
    (hsource : Text.isBlank source = false := by exact Eq.refl false)
    (htarget : Text.isBlank target = false := by exact Eq.refl false)
    (hends : (source == target) = false := by exact Eq.refl false) : Edge :=
  ⟨id, source, target, none, hid, hsource, htarget, ne_of_beq_false hends, nofun⟩

/-- An edge with a condition, checked where it is written. -/
def Edge.guarded (id : String) (source target : NodeId) (expression : String)
    (hid : Text.isBlank id = false := by exact Eq.refl false)
    (hsource : Text.isBlank source = false := by exact Eq.refl false)
    (htarget : Text.isBlank target = false := by exact Eq.refl false)
    (hends : (source == target) = false := by exact Eq.refl false)
    (hexpression : Text.isBlank expression = false := by exact Eq.refl false) : Edge :=
  ⟨id, source, target, some expression, hid, hsource, htarget, ne_of_beq_false hends,
    fun _ h => Option.some.inj h ▸ hexpression⟩

/-- A definition whose parts fit together, which is decided where it is written. -/
def Definition.plain (name : String) (nodes : List Node) (edges : List Edge) (entry : NodeId)
    (cap : Nat)
    (h : (nodes.map Node.id).Nodup ∧ (edges.map Edge.id).Nodup ∧
      (∀ e ∈ edges, e.source ∈ nodes.map Node.id ∧ e.target ∈ nodes.map Node.id) ∧
      entry ∈ nodes.map Node.id ∧ 0 < cap := by decide) : Definition :=
  ⟨name, nodes, edges, entry, cap, h.1, h.2.1, h.2.2.1, h.2.2.2.1, h.2.2.2.2⟩

/-- One of the edges leads from the one node to the other. -/
def Leads (edges : List Edge) (u v : NodeId) : Prop :=
  ∃ e ∈ edges, e.source = u ∧ e.target = v

instance (edges : List Edge) : DecidableRel (Leads edges) :=
  fun u v => inferInstanceAs (Decidable (∃ e ∈ edges, e.source = u ∧ e.target = v))

theorem Leads.mono {edges edges' : List Edge} (hsub : ∀ e ∈ edges, e ∈ edges') {u v : NodeId}
    (h : Leads edges u v) : Leads edges' u v := by
  obtain ⟨e, he, hends⟩ := h
  exact ⟨e, hsub e he, hends⟩

namespace Definition

variable {d : Definition}

/-- An edge of the definition leads from the one node to the other. -/
abbrev Joins (d : Definition) : NodeId → NodeId → Prop :=
  Leads d.edges

/-- The node of this name is a condition. -/
def IsCondition (d : Definition) (id : NodeId) : Prop :=
  ∃ n ∈ d.nodes, n.id = id ∧ n.kind = conditionKind

theorem ids_nodup (d : Definition) : d.ids.Nodup :=
  d.nodes_nodup

theorem mem_outgoing {id : NodeId} {e : Edge} :
    e ∈ d.outgoing id ↔ e ∈ d.edges ∧ e.source = id := by
  rw [outgoing, List.mem_filter, beq_iff_eq]

theorem mem_incoming {id : NodeId} {e : Edge} :
    e ∈ d.incoming id ↔ e ∈ d.edges ∧ e.target = id := by
  rw [incoming, List.mem_filter, beq_iff_eq]

theorem mem_successors {u v : NodeId} : v ∈ d.successors u ↔ d.Joins u v := by
  simp only [successors, List.mem_eraseDups, List.mem_map, mem_outgoing, Leads, and_assoc]

theorem mem_predecessors {u v : NodeId} : u ∈ d.predecessors v ↔ d.Joins u v := by
  simp only [predecessors, List.mem_eraseDups, List.mem_map, mem_incoming, Leads, and_assoc]
  constructor
  · rintro ⟨e, he, htarget, hsource⟩
    exact ⟨e, he, hsource, htarget⟩
  · rintro ⟨e, he, hsource, htarget⟩
    exact ⟨e, he, htarget, hsource⟩

theorem source_declared {u v : NodeId} (h : d.Joins u v) : u ∈ d.ids := by
  obtain ⟨e, he, rfl, rfl⟩ := h
  exact (d.ends_declared e he).1

theorem target_declared {u v : NodeId} (h : d.Joins u v) : v ∈ d.ids := by
  obtain ⟨e, he, rfl, rfl⟩ := h
  exact (d.ends_declared e he).2

theorem node?_eq_some_iff {id : NodeId} {n : Node} :
    d.node? id = some n ↔ n ∈ d.nodes ∧ n.id = id := by
  constructor
  · intro hfind
    refine ⟨List.mem_of_find?_eq_some hfind, ?_⟩
    simpa using List.find?_some hfind
  · rintro ⟨hn, rfl⟩
    cases hfind : d.node? n.id with
    | none =>
        have hnone := List.find?_eq_none.mp hfind n hn
        simp at hnone
    | some m =>
        have hm : m.id = n.id := by simpa using List.find?_some hfind
        have hmem : m ∈ d.nodes := List.mem_of_find?_eq_some hfind
        rw [List.inj_on_of_nodup_map d.nodes_nodup hmem hn hm]

theorem isCondition_iff {id : NodeId} :
    (d.node? id).any (fun n => n.kind == conditionKind) = true ↔ d.IsCondition id := by
  simp only [Option.any_eq_true, beq_iff_eq, node?_eq_some_iff, IsCondition, and_assoc]

theorem kind_eq_condition_iff {id : NodeId} :
    ((d.node? id).map Node.kind).getD "" = conditionKind ↔ d.IsCondition id := by
  rw [← isCondition_iff]
  cases d.node? id with
  | none => exact iff_of_false (by decide) nofun
  | some n => exact beq_iff_eq.symm

/-- Between joined nodes there is a first edge. -/
theorem exists_edge? {u v : NodeId} (h : d.Joins u v) :
    ∃ e ∈ d.edges, d.edge? u v = some e ∧ e.source = u ∧ e.target = v := by
  obtain ⟨e, he, rfl, rfl⟩ := h
  cases hfind : d.edge? e.source e.target with
  | none =>
      have hnone := List.find?_eq_none.mp hfind e (mem_outgoing.mpr ⟨he, rfl⟩)
      simp at hnone
  | some first =>
      have hmem := mem_outgoing.mp (List.mem_of_find?_eq_some hfind)
      have htarget : first.target = e.target := by simpa using List.find?_some hfind
      exact ⟨first, hmem.1, rfl, hmem.2, htarget⟩

end Definition
end Workflow
