import Workflow.Proofs.Graph.Survey
/-!
# What cannot be arranged

When a graph cannot be ordered, the nodes that are left over are those that a cycle holds up: the
members of a cycle of edges that are not ignored, and whatever they lead to.  No edge of a cycle
that cannot be left is ignored, so all its members are among them.
-/
namespace Workflow

open Relation

universe u

/-- What follows something stuck is stuck as well. -/
theorem mem_stuck_of_pred {V : Type u} [DecidableEq V] {predecessors : V → List V}
    {remaining : List V} {u v : V} (hnodup : remaining.Nodup) (hv : v ∈ remaining)
    (hu : u ∈ predecessors v) (hstuck : u ∈ (arrange predecessors remaining).2) :
    v ∈ (arrange predecessors remaining).2 := by
  have hperm := arrange_perm predecessors remaining
  rcases List.mem_append.mp (hperm.mem_iff.mpr hv) with htaken | hleft
  · obtain ⟨before, after, hsplit⟩ := List.append_of_mem htaken
    have hremaining : u ∈ remaining := hperm.mem_iff.mp (List.mem_append_right _ hstuck)
    have hbefore := mem_before_of_arrange hsplit hu hremaining
    have hdisjoint := (List.nodup_append'.mp (hperm.nodup_iff.mpr hnodup)).2.2
    refine absurd hstuck (hdisjoint ?_)
    rw [hsplit]
    exact List.mem_append_left _ hbefore
  · exact hleft

namespace Definition

variable {d : Definition} {nodes : List NodeId}

/-- The nodes that are left over, in the order of declaration. -/
theorem orderAlong_eq_error {edges : List Edge} (h : d.orderAlong edges = .error nodes) :
    nodes = d.ids.filter
      (fun id => (arrange (sourcesOf edges) d.byPrecedence).2.contains id) := by
  unfold orderAlong at h
  split at h
  · cases h
  · rename_i order stuck _ harrange
    rw [harrange]
    exact (Except.error.inj h).symm

theorem mem_of_order_error (h : d.order = .error nodes) {v : NodeId} :
    v ∈ nodes ↔ v ∈ (arrange (sourcesOf (d.forwardEdges d.loops)) d.byPrecedence).2 := by
  rw [orderAlong_eq_error h, List.mem_filter, List.contains_iff_mem]
  refine and_iff_right_of_imp fun hstuck => ?_
  have hperm := arrange_perm (sourcesOf (d.forwardEdges d.loops)) d.byPrecedence
  exact d.byPrecedence_perm.mem_iff.mp (hperm.mem_iff.mp (List.mem_append_right _ hstuck))

/-- What is held up by a cycle: the walk back along edges that are not ignored, from one node that
is left over to the next, never ends. -/
theorem exists_cycle_of_blocked (h : d.order = .error nodes) {v : NodeId} (hv : v ∈ nodes) :
    ∃ members, IsCycle d.LeadsForward members ∧
      ∃ u ∈ members, ReflTransGen d.LeadsForward u v := by
  classical
  have hpred : ∀ w ∈ nodes.filter (fun w => ReflTransGen d.LeadsForward w v),
      ∃ u ∈ nodes.filter (fun u => ReflTransGen d.LeadsForward u v), d.LeadsForward u w := by
    intro w hw
    simp only [List.mem_filter, decide_eq_true_eq] at hw ⊢
    obtain ⟨u, hu, hstuck⟩ := exists_pred_of_mem_stuck ((mem_of_order_error h).mp hw.1)
    have hstep : d.LeadsForward u w := leads_forwardEdges_iff.mp (mem_sourcesOf.mp hu)
    exact ⟨u, ⟨(mem_of_order_error h).mpr hstuck, ReflTransGen.head hstep hw.2⟩, hstep⟩
  have hne : nodes.filter (fun w => ReflTransGen d.LeadsForward w v) ≠ [] := by
    apply List.ne_nil_of_mem (a := v)
    simpa only [List.mem_filter, decide_eq_true_eq] using ⟨hv, ReflTransGen.refl⟩
  obtain ⟨members, hcycle, hmembers⟩ := exists_isCycle_of_forall_pred hne hpred
  obtain ⟨u, hu⟩ := List.exists_mem_of_ne_nil members hcycle.ne_nil
  have hreach := (List.mem_filter.mp (hmembers u hu)).2
  exact ⟨members, hcycle, u, hu, of_decide_eq_true hreach⟩

/-- A cycle of edges that are not ignored holds up its members, and these whatever they lead to. -/
theorem blocked_of_cycle (h : d.order = .error nodes) {members : List NodeId}
    (hcycle : IsCycle d.LeadsForward members) {u v : NodeId} (hu : u ∈ members)
    (hreach : ReflTransGen d.LeadsForward u v) : v ∈ nodes := by
  have hdeclared : ∀ {x y}, d.LeadsForward x y → y ∈ d.byPrecedence := fun hstep =>
    d.byPrecedence_perm.mem_iff.mpr (target_declared hstep.joins)
  have hsource : ∀ {x y}, d.LeadsForward x y → x ∈ sourcesOf (d.forwardEdges d.loops) y :=
    fun hstep => mem_sourcesOf.mpr (leads_forwardEdges_iff.mpr hstep)
  rw [mem_of_order_error h]
  induction hreach with
  | refl =>
      refine mem_stuck_of_forall_pred ?_ ?_ u hu
      · intro w hw
        obtain ⟨_, _, hstep⟩ := hcycle.exists_pred hw
        exact hdeclared hstep
      · intro w hw
        obtain ⟨x, hx, hstep⟩ := hcycle.exists_pred hw
        exact ⟨x, hsource hstep, hx⟩
  | tail _ hstep ih =>
      exact mem_stuck_of_pred (d.byPrecedence_perm.nodup_iff.mpr d.ids_nodup) (hdeclared hstep)
        (hsource hstep) ih

/-- A cycle that cannot be left, told from one of its members, is a cycle of edges that are not
ignored. -/
theorem exists_forward_cycle_of_not_isExit {members : List NodeId}
    (hcycle : IsCycle d.Joins members) (hexit : ∀ c, ¬ d.IsExit members c) :
    ∃ listed, members ~r listed ∧ IsCycle d.LeadsForward listed := by
  obtain ⟨listed, hlisted, hrotated⟩ := exists_mem_cycles hcycle
  have huncontrolled : (d.loopOf listed).controlled = false := by
    rw [Bool.eq_false_iff, ne_eq, controlled_loopOf (hcycle.rotate hrotated)]
    rintro ⟨c, hc⟩
    exact hexit c (hc.of_perm hrotated.perm.symm)
  have hforward :=
    forward_cycle_of_uncontrolled (mem_loops.mpr ⟨listed, hlisted, rfl⟩) huncontrolled
  exact ⟨listed, hrotated, hforward.imp fun _ _ hstep => leads_forwardEdges_iff.mp hstep⟩

/-- When a graph cannot be ordered, just the nodes that are held up are named.  Counting finds them,
whatever the order of the components in which the loops are looked for.  They come in the order of
declaration, each once; they are the nodes on a cycle of edges that are not ignored and those that
such a cycle leads to along these edges; and every member of a cycle that cannot be left is one. -/
theorem order_error_names_blocked (h : d.order = .error nodes) :
    (∀ components, d.Components components → d.surveyedOrder components = some (.error nodes)) ∧
    nodes.Sublist d.ids ∧ nodes.Nodup ∧
    (∀ v, v ∈ nodes ↔ ∃ members, IsCycle d.LeadsForward members ∧
      ∃ u ∈ members, ReflTransGen d.LeadsForward u v) ∧
    ∀ members, IsCycle d.Joins members → (∀ c, ¬ d.IsExit members c) →
      ∀ v ∈ members, v ∈ nodes := by
  have hsublist : nodes.Sublist d.ids := by
    rw [orderAlong_eq_error h]
    exact List.filter_sublist
  refine ⟨fun components hcomponents => ?_, hsublist, hsublist.nodup d.ids_nodup, fun v => ⟨?_, ?_⟩,
    ?_⟩
  · rw [hcomponents.surveyedOrder_eq, h]
  · intro hv
    exact exists_cycle_of_blocked h hv
  · rintro ⟨members, hcycle, u, hu, hreach⟩
    exact blocked_of_cycle h hcycle hu hreach
  · intro members hcycle hexit v hv
    obtain ⟨listed, hrotated, hforward⟩ := exists_forward_cycle_of_not_isExit hcycle hexit
    exact blocked_of_cycle h hforward (hrotated.mem_iff.mp hv) ReflTransGen.refl

/-- The draft can be checked again, but copying and sorting go on for ever. -/
def tangle : Definition :=
  .plain "tangle"
    [.plain "print" "step", .plain "copy" "step", .plain "sort" "step", .plain "check" "condition",
      .plain "draft" "step"]
    [.plain "e1" "draft" "check", .plain "e2" "check" "draft", .plain "e3" "check" "copy",
      .plain "e4" "copy" "sort", .plain "e5" "sort" "copy", .plain "e6" "sort" "print"]
    "draft" 3

/-- What is copied, sorted and printed is held up, but not the draft and the check. -/
theorem tangle_blocked :
    tangle.order = .error ["print", "copy", "sort"] ∧
    (∃ members, IsCycle tangle.LeadsForward members ∧
      ∃ u ∈ members, ReflTransGen tangle.LeadsForward u "print") ∧
    ¬ ∃ members, IsCycle tangle.LeadsForward members ∧
      ∃ u ∈ members, ReflTransGen tangle.LeadsForward u "check" := by
  have hloops : tangle.loops = [⟨["draft", "check"], "e2", true, some "check"⟩,
      ⟨["copy", "sort"], "e5", false, none⟩] := by cbv
  have horder : tangle.order = .error ["print", "copy", "sort"] := by
    rw [order, hloops]
    decide +kernel
  obtain ⟨_, _, _, hblocked, _⟩ := order_error_names_blocked horder
  refine ⟨horder, (hblocked "print").mp (by decide), fun hcheck => ?_⟩
  exact absurd ((hblocked "check").mpr hcheck) (by decide)

end Definition
end Workflow
