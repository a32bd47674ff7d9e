import Workflow.Proofs.Graph.Extension
import Workflow.Proofs.Precedence
/-!
# What ignoring edges leaves

The walk meets every live node through one that it has met before, and an ignored edge leads back to
the first member of a loop, which the walk has met before all the others.  So the steps by which the
walk goes down are never ignored, and ignoring edges cuts no live node off from the entry point.
-/
namespace Workflow

open Relation

/-- What a visit meets newly, it meets from the stack or through a node that it has met before. -/
theorem DepthFirst.met_through {V : Type u} {successors : V → List V} {stack seen out : List V}
    (h : DepthFirst successors stack seen out) {v : V} (hv : v ∈ out) (hnew : v ∉ seen) :
    v ∈ stack ∨ ∃ u, v ∈ successors u ∧ [u, v].Sublist out := by
  induction h with
  | done seen => exact absurd hv hnew
  | skip _ _ ih =>
      rcases ih hv hnew with hstack | hthrough
      · exact Or.inl (List.mem_cons_of_mem _ hstack)
      · exact Or.inr hthrough
  | @visit w rest seen below out _ hbelow hrest ihbelow ihrest =>
      by_cases hw : v = w
      · subst hw
        exact Or.inl List.mem_cons_self
      · have hnew' : v ∉ seen ++ [w] := by
          rw [List.mem_append, List.mem_singleton]
          exact not_or.mpr ⟨hnew, hw⟩
        by_cases hmet : v ∈ below
        · right
          have hkept : below.Sublist out := hrest.seen_isPrefix.sublist
          rcases ihbelow hmet hnew' with hnext | ⟨u, hnext, hbefore⟩
          · obtain ⟨later, rfl⟩ := hbelow.seen_isPrefix
            have hlater : v ∈ later := (List.mem_append.mp hmet).resolve_left hnew'
            have hw' : [w].Sublist (seen ++ [w]) := List.sublist_append_right seen [w]
            exact ⟨w, hnext, (hw'.append (List.singleton_sublist.mpr hlater)).trans hkept⟩
          · exact ⟨u, hnext, hbefore.trans hkept⟩
        · rcases ihrest hv hmet with hstack | hthrough
          · exact Or.inl (List.mem_cons_of_mem _ hstack)
          · exact Or.inr hthrough

namespace Definition

variable {d : Definition} {u v : NodeId}

/-- Every live node but the entry point has an edge from one that the walk has met before. -/
theorem Live.exists_earlier (hv : d.Live v) (hne : v ≠ d.entry) :
    ∃ u, d.Live u ∧ d.Joins u v ∧ d.preorder.idxOf u < d.preorder.idxOf v := by
  rcases d.depthFirst_reachable.met_through (mem_reachable_entry.mpr hv) List.not_mem_nil with
    hentry | ⟨u, hnext, hbefore⟩
  · exact absurd (List.mem_singleton.mp hentry) hne
  · refine ⟨u, mem_reachable_entry.mp (hbefore.subset List.mem_cons_self),
      mem_successors.mp hnext, ?_⟩
    simpa using (pairwise_idxOf d.preorder_nodup).sublist
      (hbefore.trans d.reachable_isPrefix.sublist)

/-- An ignored edge leads to a node that the walk has met no later than its source. -/
theorem Ignores.idxOf_target_le {e : Edge} (h : d.Ignores e) :
    d.preorder.idxOf e.target ≤ d.preorder.idxOf e.source := by
  obtain ⟨l, hl, hlast, hfirst⟩ := h.closes
  obtain ⟨members, hmembers, rfl⟩ := mem_loops.mp hl
  exact idxOf_le_of_mem_cycles hmembers hfirst (List.mem_of_getLast? hlast)

theorem leadsForward_of_idxOf_lt (hjoins : d.Joins u v)
    (hlt : d.preorder.idxOf u < d.preorder.idxOf v) : d.LeadsForward u v := by
  obtain ⟨e, he, rfl, rfl⟩ := hjoins
  refine ⟨e, he, rfl, rfl, fun hignored => ?_⟩
  exact Nat.not_le_of_lt hlt hignored.idxOf_target_le

/-- A path of edges that are not ignored leads from the entry point to every other live node.  By
induction on where the walk meets the node. -/
theorem Live.leadsForward (hv : d.Live v) (hne : v ≠ d.entry) :
    TransGen d.LeadsForward d.entry v := by
  induction hrank : d.preorder.idxOf v using Nat.strongRecOn generalizing v with
  | ind rank ih =>
      obtain ⟨u, hu, hjoins, hlt⟩ := hv.exists_earlier hne
      have hstep := leadsForward_of_idxOf_lt hjoins hlt
      by_cases hentry : u = d.entry
      · subst hentry
        exact TransGen.single hstep
      · exact TransGen.tail (ih _ (hrank ▸ hlt) hu hentry rfl) hstep

theorem live_iff_leadsForward (hne : v ≠ d.entry) :
    d.Live v ↔ TransGen d.LeadsForward d.entry v := by
  constructor
  · intro hv
    exact hv.leadsForward hne
  · intro hpath
    exact hpath.to_reflTransGen.lift id fun _ _ hstep => hstep.joins

end Definition

/-- Ignoring edges cuts no node off: what the entry point leads to along any edges, itself apart, is
what it precedes in the plan, which is what it leads to along the edges that are not ignored. -/
theorem Plan.entry_precedes_live {d : Definition} {c : Catalog} {strict : Bool} {p : Plan}
    (hplan : d.plan c strict = .ok p) {n : NodeId} (hne : n ≠ d.entry) :
    (ReflTransGen d.Joins d.entry n ↔ p.precedes d.entry n = true) ∧
      (p.precedes d.entry n = true ↔ TransGen d.LeadsForward d.entry n) := by
  obtain ⟨rfl, hsound⟩ := Definition.sound_of_plan hplan
  rw [hsound.precedes_iff_leadsForward]
  exact ⟨Definition.live_iff_leadsForward hne, Iff.rfl⟩

namespace Definition

/-- Two loops share the step from the draft to the check; nothing leads to the appendix. -/
def essay : Definition :=
  .plain "essay"
    [.plain "appendix" "step", .plain "draft" "step", .plain "check" "condition",
      .plain "mend" "step", .plain "print" "step"]
    [.plain "e1" "draft" "check", .plain "e2" "check" "draft", .plain "e3" "check" "mend",
      .plain "e4" "mend" "draft", .plain "e5" "check" "print", .plain "e6" "appendix" "mend"]
    "draft" 3

def essayPlan : Plan :=
  ⟨essay, ["draft", "appendix", "check", "mend", "print"], essay.loops, essay.validate bareKinds,
    Table.ofList [("appendix", []), ("draft", []), ("check", ["draft"]),
      ("mend", ["appendix", "check", "draft"]), ("print", ["check", "draft"])]⟩

/-- Both edges back to the draft are ignored, and the draft still leads to the mending. -/
theorem essay_reaches_mend :
    essay.plan bareKinds false = .ok essayPlan ∧ essayPlan.precedes "draft" "mend" = true ∧
      ReflTransGen essay.Joins "draft" "mend" ∧ ¬ ReflTransGen essay.Joins "draft" "appendix" := by
  have hloops : essay.loops = [⟨["draft", "check"], "e2", true, some "check"⟩,
      ⟨["draft", "check", "mend"], "e4", true, some "check"⟩] := by cbv
  have hplan : essay.plan bareKinds false = .ok essayPlan :=
    plan_eq_ok hloops rfl rfl (by decide +kernel) rfl
  have hmend : essayPlan.precedes "draft" "mend" = true := by decide +kernel
  have happendix : essayPlan.precedes "draft" "appendix" = false := by decide +kernel
  refine ⟨hplan, hmend, ?_, ?_⟩
  · exact (Plan.entry_precedes_live hplan (by decide)).1.mpr hmend
  · intro hreach
    have hprecedes := (Plan.entry_precedes_live hplan (by decide)).1.mp hreach
    rw [show essay.entry = "draft" from rfl, happendix] at hprecedes
    cases hprecedes

end Definition
end Workflow
