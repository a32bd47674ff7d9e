import Workflow.Proofs.Graph.Exits
import Workflow.Proofs.Graph.Forward
/-!
# Precedence

One node of a plan precedes another when a path of forward edges leads from it to the other.
Nothing precedes itself, and the order of the plan puts every node behind all that precede it.
Where no loop comes before a node, every edge that leads to it is a forward edge.
-/
namespace Workflow

open Relation

variable {d : Definition}

namespace Definition

/-- The node lies on a cycle or can be reached from one. -/
def BehindLoop (d : Definition) (v : NodeId) : Prop :=
  ∃ u, d.OnCycle u ∧ ReflTransGen d.Joins u v

theorem behindLoop_iff {v : NodeId} :
    d.BehindLoop v ↔ ∃ members ∈ d.cycles, ∃ u ∈ members, v ∈ d.reachable u := by
  constructor
  · rintro ⟨u, ⟨members, hcycle, hu⟩, hreach⟩
    obtain ⟨listed, hlisted, hrotated⟩ := exists_mem_cycles hcycle
    exact ⟨listed, hlisted, u, hrotated.mem_iff.mp hu,
      (mem_reachable (declared_of_onCycle ⟨members, hcycle, hu⟩)).mpr hreach⟩
  · rintro ⟨members, hmembers, u, hu, hreach⟩
    have hcycle : d.OnCycle u := ⟨members, (mem_cycles_iff.mp hmembers).1, hu⟩
    exact ⟨u, hcycle, (mem_reachable (declared_of_onCycle hcycle)).mp hreach⟩

/-- An ignored edge leads to the first member of a loop. -/
theorem Ignores.onCycle_target {e : Edge} (h : d.Ignores e) : d.OnCycle e.target := by
  obtain ⟨l, hl, _, hfirst⟩ := h.closes
  exact ⟨l.nodes, isCycle_of_mem_loops hl, List.mem_of_head? hfirst⟩

theorem leadsForward_of_joins {u v : NodeId} (hjoins : d.Joins u v) (hv : ¬ d.BehindLoop v) :
    d.LeadsForward u v := by
  obtain ⟨e, he, hsource, rfl⟩ := hjoins
  refine ⟨e, he, hsource, rfl, fun hignored => ?_⟩
  exact hv ⟨e.target, hignored.onCycle_target, ReflTransGen.refl⟩

end Definition

namespace Plan

variable {p : Plan}

theorem Sound.precedes_iff_leadsForward (hp : p.Sound) {a n : NodeId} :
    p.precedes a n = true ↔ TransGen p.definition.LeadsForward a n := by
  have hforward : p.Forward = p.definition.LeadsForward := by
    funext u v
    exact propext Definition.leads_forwardEdges_iff
  rw [hp.precedes_iff, hforward]

theorem Sound.precedes_of_joins (hp : p.Sound) {u v : NodeId} (hjoins : p.definition.Joins u v)
    (hv : ¬ p.definition.BehindLoop v) : p.precedes u v = true := by
  rw [hp.precedes_iff]
  exact TransGen.single
    (Definition.leads_forwardEdges_iff.mpr (Definition.leadsForward_of_joins hjoins hv))

/-- What precedes a node behind no loop is itself behind no loop. -/
theorem Sound.not_behindLoop (hp : p.Sound) {a n : NodeId} (h : p.precedes a n = true)
    (hn : ¬ p.definition.BehindLoop n) : ¬ p.definition.BehindLoop a := by
  rintro ⟨u, hcycle, hreach⟩
  have hpath : ReflTransGen p.definition.Joins a n := by
    refine ((hp.precedes_iff a n).mp h).to_reflTransGen.lift id fun v w hstep => ?_
    exact hstep.mono fun e he => Definition.mem_edges_of_mem_forwardEdges he
  exact hn ⟨u, hcycle, hreach.trans hpath⟩

theorem Sound.sublist_order (hp : p.Sound) {a n : NodeId} (h : p.precedes a n = true) :
    [a, n].Sublist p.order := by
  obtain ⟨before, after, hsplit, ha⟩ := hp.exists_split_of_precedes h
  rw [hsplit, ← List.singleton_append (x := a)]
  exact (List.singleton_sublist.mpr ha).append
    (List.singleton_sublist.mpr List.mem_cons_self)

/-- What a plan knows about the nodes behind a node is exact.  One node precedes another when a path
that is not empty leads from it to the other along edges that the order does not ignore.  So no node
precedes itself, what precedes a node that precedes a third precedes the third, and in the order of
the plan, which lists every node once, a node comes after all that precede it. -/
theorem precedes_is_exact {c : Catalog} {strict : Bool} (hplan : d.plan c strict = .ok p) :
    (∀ a n, p.precedes a n = true ↔ TransGen d.LeadsForward a n) ∧
    (∀ n, p.precedes n n = false) ∧
    (∀ a b n, p.precedes a b = true → p.precedes b n = true → p.precedes a n = true) ∧
    (∀ a n, p.precedes a n = true → [a, n].Sublist p.order) ∧
    p.order.Perm d.ids ∧ p.order.Nodup := by
  obtain ⟨rfl, hsound⟩ := Definition.sound_of_plan hplan
  exact ⟨fun a n => hsound.precedes_iff_leadsForward, hsound.not_precedes_self,
    fun a b n => hsound.precedes_trans, fun a n => hsound.sublist_order, hsound.order_perm,
    hsound.order_nodup⟩

end Plan

namespace Definition

/-- The plan of `review`: the ways back to the draft and to the check are cut. -/
def reviewPlan : Plan :=
  ⟨review, ["draft", "check", "mend", "print"], review.loops, review.validate bareKinds,
    Table.ofList [("draft", []), ("check", ["draft"]), ("mend", ["check", "draft"]),
      ("print", ["check", "draft"])]⟩

theorem reviewPlan_precedes :
    review.plan bareKinds false = .ok reviewPlan ∧
    TransGen review.LeadsForward "draft" "mend" ∧
    ¬ TransGen review.LeadsForward "mend" "draft" := by
  have hplan : review.plan bareKinds false = .ok reviewPlan :=
    plan_eq_ok review_loops rfl rfl (by decide +kernel) rfl
  obtain ⟨hprecedes, _⟩ := Plan.precedes_is_exact hplan
  refine ⟨hplan, (hprecedes _ _).mp (by decide +kernel), ?_⟩
  rw [← hprecedes]
  decide +kernel

end Definition
end Workflow
