import Workflow.Proofs.Graph.Forward
import Workflow.Proofs.Graph.Walk
/-!
# The live part of a graph

The live nodes are those that the entry point leads to.  What a plan says of them is up to them
alone: the walk comes to them first, a loop with a live member has live members only, and the exits
of such a loop and the edges from a live node are found by looking at live nodes.  So definitions
with the same live part, whatever else they have, have the same loops there and cut them open at the
same edges.
-/
namespace Workflow
namespace Definition

open Relation

variable {d d' : Definition} {u v : NodeId}

/-- A run can come to the node: the entry point leads to it. -/
def Live (d : Definition) (v : NodeId) : Prop :=
  ReflTransGen d.Joins d.entry v

theorem Live.tail (hu : d.Live u) (hjoins : d.Joins u v) : d.Live v :=
  ReflTransGen.tail hu hjoins

theorem Live.declared (hv : d.Live v) : v ∈ d.ids :=
  declared_of_reaches d.entry_declared hv

theorem mem_reachable_entry : v ∈ d.reachable d.entry ↔ d.Live v :=
  mem_reachable d.entry_declared

/-- A cycle with a live member is live. -/
theorem Live.of_isCycle {members : List NodeId} (hu : d.Live u) (hcycle : IsCycle d.Joins members)
    (humem : u ∈ members) (hvmem : v ∈ members) : d.Live v :=
  ReflTransGen.trans hu (hcycle.reaches humem hvmem)

/-! ### The walk through the live part -/

theorem depthFirst_reachable (d : Definition) :
    DepthFirst d.successors [d.entry] [] (d.reachable d.entry) := by
  apply depthFirst_walk
  · intro u v hv
    exact target_declared (mem_successors.mp hv)
  · intro v hv
    obtain rfl := List.mem_singleton.mp hv
    exact d.entry_declared

/-- The walk comes to the live nodes first. -/
theorem reachable_isPrefix (d : Definition) : d.reachable d.entry <+: d.preorder := by
  obtain ⟨met, hfirst, hrest⟩ := (depthFirst_iff_eq_preorder.mpr rfl :
    DepthFirst d.successors (d.entry :: d.ids) [] d.preorder).append_inv
      (List.singleton_append (x := d.entry)).symm
  rw [d.depthFirst_reachable.unique hfirst]
  exact hrest.seen_isPrefix

theorem idxOf_preorder (hv : d.Live v) :
    d.preorder.idxOf v = (d.reachable d.entry).idxOf v := by
  obtain ⟨rest, hrest⟩ := d.reachable_isPrefix
  rw [← hrest, List.idxOf_append, if_pos (mem_reachable_entry.mpr hv)]

/-- A cycle is told from the member that the walk meets first. -/
theorem mem_cycles_iff_first {members : List NodeId} :
    members ∈ d.cycles ↔ IsCycle d.Joins members ∧ ∀ first, members.head? = some first →
      ∀ v ∈ members, d.preorder.idxOf first ≤ d.preorder.idxOf v := by
  constructor
  · intro hmembers
    exact ⟨(mem_cycles_iff.mp hmembers).1,
      fun first hfirst v hv => idxOf_le_of_mem_cycles hmembers hfirst hv⟩
  · rintro ⟨hcycle, hleast⟩
    obtain ⟨listed, hlisted, hrotated⟩ := exists_mem_cycles hcycle
    cases members with
    | nil => exact absurd rfl hcycle.ne_nil
    | cons first rest =>
        obtain ⟨_, before, start, later, way, hvisits, rfl, _⟩ := mem_cycles_iff.mp hlisted
        have hstart : start ∈ first :: rest := hrotated.mem_iff.mpr List.mem_cons_self
        have hfirst : first ∈ start :: way := hrotated.mem_iff.mp List.mem_cons_self
        have hsame : d.preorder.idxOf first = d.preorder.idxOf start :=
          Nat.le_antisymm (hleast first rfl start hstart)
            (idxOf_le_of_mem_cycles hlisted rfl hfirst)
        have hmet : first ∈ d.preorder := by
          obtain ⟨_, _, hstep⟩ := hcycle.exists_pred List.mem_cons_self
          exact mem_preorder.mpr (target_declared hstep)
        obtain rfl := (List.idxOf_inj hmet).mp hsame
        rw [IsCycle.eq_of_isRotated hcycle.nodup hrotated]
        exact hlisted

/-! ### Definitions with the same live part -/

/-- The definitions begin at the same node, and every node that a run of the one can come to is the
same in the other and has the same edges to follow. -/
structure Alike (d d' : Definition) : Prop where
  entry : d'.entry = d.entry
  node? : ∀ v, d.Live v → d'.node? v = d.node? v
  outgoing : ∀ v, d.Live v → d'.outgoing v = d.outgoing v

namespace Alike

variable (h : d.Alike d')
include h

theorem mem_edges_iff {e : Edge} (hlive : d.Live e.source) : e ∈ d'.edges ↔ e ∈ d.edges := by
  have hsame : e ∈ d'.outgoing e.source ↔ e ∈ d.outgoing e.source := by rw [h.outgoing _ hlive]
  simpa only [mem_outgoing, and_true] using hsame

theorem joins_iff (hu : d.Live u) : d'.Joins u v ↔ d.Joins u v := by
  constructor
  · rintro ⟨e, he, rfl, htarget⟩
    exact ⟨e, (h.mem_edges_iff hu).mp he, rfl, htarget⟩
  · rintro ⟨e, he, rfl, htarget⟩
    exact ⟨e, (h.mem_edges_iff hu).mpr he, rfl, htarget⟩

theorem live_iff : d'.Live v ↔ d.Live v := by
  constructor
  · intro hv
    induction hv with
    | refl => exact h.entry ▸ ReflTransGen.refl
    | tail _ hjoins ih => exact ih.tail ((h.joins_iff ih).mp hjoins)
  · intro hv
    induction hv with
    | refl => exact h.entry ▸ ReflTransGen.refl
    | @tail u w hu hjoins ih => exact ih.tail ((h.joins_iff hu).mpr hjoins)

theorem symm : d'.Alike d where
  entry := h.entry.symm
  node? v hv := (h.node? v (h.live_iff.mp hv)).symm
  outgoing v hv := (h.outgoing v (h.live_iff.mp hv)).symm

/-! ### The same walk -/

theorem successors (hv : d.Live v) : d'.successors v = d.successors v := by
  rw [Definition.successors, Definition.successors, h.outgoing v hv]

theorem reachable : d'.reachable d'.entry = d.reachable d.entry := by
  have hwalk : DepthFirst d'.successors [d.entry] [] (d.reachable d.entry) := by
    refine d.depthFirst_reachable.congr (P := d.Live) ?_ (fun u hu => h.successors hu) ?_
    · intro u hu v hv
      exact hu.tail (mem_successors.mp hv)
    · intro v hv
      obtain rfl := List.mem_singleton.mp hv
      exact ReflTransGen.refl
  rw [← h.entry] at hwalk
  exact d'.depthFirst_reachable.unique (h.entry ▸ hwalk)

theorem idxOf_preorder (hv : d.Live v) : d'.preorder.idxOf v = d.preorder.idxOf v := by
  rw [Definition.idxOf_preorder (h.live_iff.mpr hv), h.reachable, ← Definition.idxOf_preorder hv]

/-! ### The same loops -/

variable {members : List NodeId}

theorem isCycle (hu : d.Live u) (humem : u ∈ members) (hcycle : IsCycle d.Joins members) :
    IsCycle d'.Joins members := by
  refine ⟨hcycle.ne_nil, hcycle.nodup, isChain_iff_forall_mem_zip_tail.mpr fun p hp => ?_⟩
  have hmem : p.1 ∈ members := by
    rcases List.mem_append.mp (List.of_mem_zip hp).1 with hmem | hmem
    · exact hmem
    · exact List.mem_of_head? (Option.mem_toList.mp hmem)
  exact (h.joins_iff (hu.of_isCycle hcycle humem hmem)).mpr
    (isChain_iff_forall_mem_zip_tail.mp hcycle.closed p hp)

theorem mem_cycles (hu : d.Live u) (humem : u ∈ members) (hmembers : members ∈ d.cycles) :
    members ∈ d'.cycles := by
  obtain ⟨hcycle, hleast⟩ := mem_cycles_iff_first.mp hmembers
  refine mem_cycles_iff_first.mpr ⟨h.isCycle hu humem hcycle, fun first hfirst v hv => ?_⟩
  rw [h.idxOf_preorder (hu.of_isCycle hcycle humem (List.mem_of_head? hfirst)),
    h.idxOf_preorder (hu.of_isCycle hcycle humem hv)]
  exact hleast first hfirst v hv

theorem isCondition_iff (hv : d.Live v) : d'.IsCondition v ↔ d.IsCondition v := by
  rw [← Definition.isCondition_iff, ← Definition.isCondition_iff, h.node? v hv]

theorem isExit (hlive : ∀ v ∈ members, d.Live v) {c : NodeId} (hexit : d.IsExit members c) :
    d'.IsExit members c := by
  obtain ⟨hmem, hcond, honly, e, he, rfl, hout⟩ := hexit
  exact ⟨hmem, (h.isCondition_iff (hlive _ hmem)).mpr hcond,
    fun v hv hvcond => honly v hv ((h.isCondition_iff (hlive v hv)).mp hvcond),
    e, (h.mem_edges_iff (hlive _ hmem)).mpr he, rfl, hout⟩

/-! ### The same edges lead forward -/

theorem ignores {e : Edge} (hlive : d.Live e.source) (hignored : d.Ignores e) : d'.Ignores e := by
  constructor
  · obtain ⟨l, hl, hlast, hfirst⟩ := hignored.closes
    obtain ⟨members, hmembers, rfl⟩ := mem_loops.mp hl
    exact ⟨d'.loopOf members, mem_loops.mpr
      ⟨members, h.mem_cycles hlive (List.mem_of_getLast? hlast) hmembers, rfl⟩, hlast, hfirst⟩
  · intro rest hcycle'
    have hcycle := h.symm.isCycle (h.live_iff.mpr hlive) List.mem_cons_self hcycle'
    obtain ⟨c, hexit⟩ := hignored.exits rest hcycle
    exact ⟨c, h.isExit (fun v hv => hlive.of_isCycle hcycle List.mem_cons_self hv) hexit⟩

theorem leadsForward (hu : d.Live u) (hleads : d.LeadsForward u v) : d'.LeadsForward u v := by
  obtain ⟨e, he, rfl, htarget, hkept⟩ := hleads
  exact ⟨e, (h.mem_edges_iff hu).mpr he, rfl, htarget,
    fun hignored => hkept (h.symm.ignores (h.live_iff.mpr hu) hignored)⟩

/-- A path of forward edges stays in the live part. -/
theorem leadsForward_path (hu : d.Live u) (hpath : TransGen d.LeadsForward u v) :
    TransGen d'.LeadsForward u v := by
  suffices hboth : TransGen d'.LeadsForward u v ∧ d.Live v from hboth.1
  induction hpath with
  | single hstep => exact ⟨.single (h.leadsForward hu hstep), hu.tail hstep.joins⟩
  | tail _ hstep ih =>
      obtain ⟨hwalked, hlive⟩ := ih
      exact ⟨hwalked.tail (h.leadsForward hlive hstep), hlive.tail hstep.joins⟩

theorem leadsForward_path_iff (hu : d.Live u) :
    TransGen d'.LeadsForward u v ↔ TransGen d.LeadsForward u v :=
  ⟨h.symm.leadsForward_path (h.live_iff.mpr hu), h.leadsForward_path hu⟩

end Alike

/-! ### Extensions -/

/-- The definition `d'` extends `d`: it has all the nodes and edges of `d`, in the same order, and
begins at the same node under the same cap, and no run of it can come to the source of an edge that
was added. -/
structure Extends (d' d : Definition) : Prop where
  name : d'.name = d.name
  entry : d'.entry = d.entry
  cap : d'.cap = d.cap
  nodes : d.nodes.Sublist d'.nodes
  edges : d.edges.Sublist d'.edges
  unreached : ∀ e ∈ d'.edges, e ∈ d.edges ∨ ¬ d'.Live e.source

namespace Extends

variable (h : d'.Extends d)
include h

theorem live (hv : d.Live v) : d'.Live v := by
  induction hv with
  | refl => exact h.entry ▸ ReflTransGen.refl
  | tail _ hjoins ih => exact ih.tail (hjoins.mono fun _ he => h.edges.subset he)

/-- What is added does not show in the live part. -/
theorem alike : d.Alike d' where
  entry := h.entry
  node? v hv := by
    obtain ⟨n, hn, rfl⟩ := List.mem_map.mp hv.declared
    rw [node?_eq_some_iff.mpr ⟨h.nodes.subset hn, rfl⟩, node?_eq_some_iff.mpr ⟨hn, rfl⟩]
  outgoing v hv := by
    refine filter_eq_of_sublist h.edges (List.Nodup.of_map _ d'.edges_nodup) fun e he hleaves => ?_
    obtain rfl := beq_iff_eq.mp hleaves
    exact (h.unreached e he).resolve_right (not_not_intro (h.live hv))

end Extends
end Definition
end Workflow
