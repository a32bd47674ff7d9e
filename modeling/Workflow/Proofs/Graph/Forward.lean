import Workflow.Proofs.Graph.Order
/-!
# Forward edges

The order of a graph ignores an edge that closes a loop, provided that every cycle through it has an
exit.  The other edges lead forward.
-/
namespace Workflow
namespace Definition

variable {d : Definition}

theorem not_joins_self (d : Definition) (v : NodeId) : ¬ d.Joins v v := by
  rintro ⟨e, _, rfl, htarget⟩
  exact e.ends_differ htarget.symm

/-- An edge that the order ignores: it closes a loop, and every cycle that it is part of has an
exit. -/
structure Ignores (d : Definition) (e : Edge) : Prop where
  closes : ∃ l ∈ d.loops, l.nodes.getLast? = some e.source ∧ l.nodes.head? = some e.target
  exits : ∀ rest, IsCycle d.Joins (e.source :: e.target :: rest) →
    ∃ c, d.IsExit (e.source :: e.target :: rest) c

/-- A loop passes an edge if it can be told from the edge on. -/
theorem passes_iff {l : Loop} (hl : l ∈ d.loops) {e : Edge} :
    l.passes e = true ↔ ∃ rest, l.nodes ~r e.source :: e.target :: rest := by
  rw [Loop.passes, List.contains_iff_mem, Loop.steps, Loop.path]
  exact (isCycle_of_mem_loops hl).mem_steps_iff d.not_joins_self

/-- The loops through an edge are all controlled if every cycle through it has an exit. -/
theorem all_passing_controlled_iff {e : Edge} :
    d.loops.all (fun l => l.controlled || !l.passes e) = true ↔
      ∀ rest, IsCycle d.Joins (e.source :: e.target :: rest) →
        ∃ c, d.IsExit (e.source :: e.target :: rest) c := by
  simp only [List.all_eq_true, Bool.or_eq_true, Bool.not_eq_true']
  constructor
  · intro hall rest hcycle
    obtain ⟨listed, hlisted, hrotated⟩ := exists_mem_cycles hcycle
    have hl : d.loopOf listed ∈ d.loops := mem_loops.mpr ⟨listed, hlisted, rfl⟩
    have hpasses : (d.loopOf listed).passes e = true := (passes_iff hl).mpr ⟨rest, hrotated.symm⟩
    have hcontrolled : (d.loopOf listed).controlled = true := by
      refine (hall _ hl).resolve_right ?_
      rw [hpasses]
      exact nofun
    obtain ⟨c, hexit⟩ := (controlled_loopOf (hcycle.rotate hrotated)).mp hcontrolled
    exact ⟨c, hexit.of_perm hrotated.perm.symm⟩
  · intro hall l hl
    cases hpasses : l.passes e with
    | false => exact Or.inr rfl
    | true =>
        obtain ⟨rest, hrotated⟩ := (passes_iff hl).mp hpasses
        obtain ⟨c, hexit⟩ := hall rest ((isCycle_of_mem_loops hl).rotate hrotated)
        obtain ⟨members, hmembers, rfl⟩ := mem_loops.mp hl
        exact Or.inl ((controlled_loopOf (mem_cycles_iff.mp hmembers).1).mpr
          ⟨c, hexit.of_perm hrotated.perm.symm⟩)

theorem isIgnored_iff {e : Edge} : isIgnored d.loops e = true ↔ d.Ignores e := by
  have hcloses : d.loops.any (fun l => l.closedBy e) = true ↔
      ∃ l ∈ d.loops, l.nodes.getLast? = some e.source ∧ l.nodes.head? = some e.target := by
    simp only [List.any_eq_true, Loop.closedBy, Bool.and_eq_true, beq_iff_eq]
  rw [isIgnored, Bool.and_eq_true, hcloses, all_passing_controlled_iff]
  constructor
  · rintro ⟨hcloses, hexits⟩
    exact ⟨hcloses, hexits⟩
  · intro h
    exact ⟨h.closes, h.exits⟩

/-- An edge leads from the one node to the other that the order does not ignore. -/
def LeadsForward (d : Definition) (u v : NodeId) : Prop :=
  ∃ e ∈ d.edges, e.source = u ∧ e.target = v ∧ ¬ d.Ignores e

theorem LeadsForward.joins {u v : NodeId} (h : d.LeadsForward u v) : d.Joins u v := by
  obtain ⟨e, he, hsource, htarget, _⟩ := h
  exact ⟨e, he, hsource, htarget⟩

theorem leads_forwardEdges_iff {u v : NodeId} :
    Leads (d.forwardEdges d.loops) u v ↔ d.LeadsForward u v := by
  simp only [Leads, LeadsForward, mem_forwardEdges, ← isIgnored_iff, Bool.not_eq_true]
  constructor
  · rintro ⟨e, ⟨he, hkept⟩, hsource, htarget⟩
    exact ⟨e, he, hsource, htarget, hkept⟩
  · rintro ⟨e, he, hsource, htarget, hkept⟩
    exact ⟨e, ⟨he, hkept⟩, hsource, htarget⟩

end Definition
end Workflow
