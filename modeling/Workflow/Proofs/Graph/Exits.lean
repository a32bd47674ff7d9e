import Workflow.Proofs.Plan
/-!
# Ways out of loops

In a definition that passes its validation every loop can be left, since its condition has an edge
to a node outside.  That node may lie on another loop.  As long as no condition is the exit of two
loops, one comes to a node on no loop in the end; otherwise two loops may have no way out but into
each other.
-/
namespace Workflow

open Relation

namespace Definition

variable {d : Definition}

/-- The node lies on a cycle. -/
def OnCycle (d : Definition) (v : NodeId) : Prop :=
  ∃ members, IsCycle d.Joins members ∧ v ∈ members

theorem declared_of_onCycle {v : NodeId} (h : d.OnCycle v) : v ∈ d.ids := by
  obtain ⟨members, hcycle, hv⟩ := h
  obtain ⟨u, _, hstep⟩ := hcycle.exists_pred hv
  exact target_declared hstep

theorem reachable_nodup (d : Definition) (u : NodeId) : (d.reachable u).Nodup :=
  walk_nodup List.nodup_nil

/-- What cannot lead back to a node reaches less than the node does. -/
theorem length_reachable_lt {u v : NodeId} (hu : u ∈ d.ids) (hreach : ReflTransGen d.Joins u v)
    (hback : ¬ ReflTransGen d.Joins v u) : (d.reachable v).length < (d.reachable u).length := by
  have hv : v ∈ d.ids := declared_of_reaches hu hreach
  have hnew : u ∉ d.reachable v := fun h => hback ((mem_reachable hv).mp h)
  have hsub : ∀ w ∈ u :: d.reachable v, w ∈ d.reachable u := by
    intro w hw
    rcases List.mem_cons.mp hw with rfl | hw
    · exact (mem_reachable hu).mpr ReflTransGen.refl
    · exact (mem_reachable hu).mpr (hreach.trans ((mem_reachable hv).mp hw))
  have hnodup : (u :: d.reachable v).Nodup := List.nodup_cons.mpr ⟨hnew, d.reachable_nodup v⟩
  exact (List.subperm_of_subset hnodup hsub).length_le

/-- From every node one can get to where everything that follows leads back. -/
theorem exists_closed {u : NodeId} (hu : u ∈ d.ids) :
    ∃ v, ReflTransGen d.Joins u v ∧
      ∀ w, ReflTransGen d.Joins v w → ReflTransGen d.Joins w v := by
  induction hsize : (d.reachable u).length using Nat.strongRecOn generalizing u with
  | ind n ih =>
      by_cases hclosed : ∀ w, ReflTransGen d.Joins u w → ReflTransGen d.Joins w u
      · exact ⟨u, ReflTransGen.refl, hclosed⟩
      · push Not at hclosed
        obtain ⟨w, hreach, hback⟩ := hclosed
        have hless := length_reachable_lt hu hreach hback
        obtain ⟨v, hv, hclosed⟩ := ih _ (hsize ▸ hless) (declared_of_reaches hu hreach) rfl
        exact ⟨v, hreach.trans hv, hclosed⟩

/-- Every member of a loop with an exit leads to a node outside the loop. -/
theorem IsExit.exists_outside {members : List NodeId} (hcycle : IsCycle d.Joins members)
    {c v : NodeId} (hexit : d.IsExit members c) (hv : v ∈ members) :
    ∃ u, ReflTransGen d.Joins v u ∧ u ∉ members := by
  obtain ⟨hc, _, _, e, he, hsource, hout⟩ := hexit
  exact ⟨e.target, (hcycle.reaches hv hc).tail ⟨e, he, hsource, rfl⟩, hout⟩

/-- The node is the exit of two loops, and the way out of the one is a step of the other.  Nothing
that follows leads away from the node for good. -/
structure Interlocks (d : Definition) (c : NodeId) : Prop where
  closed : ∀ u, ReflTransGen d.Joins c u → ReflTransGen d.Joins u c
  loops : ∃ left entered, IsCycle d.Joins left ∧ IsCycle d.Joins entered ∧
    d.IsExit left c ∧ d.IsExit entered c ∧ ∃ u ∈ entered, d.Joins c u ∧ u ∉ left

/-- Where everything leads back and every loop has an exit, the exit of a loop is that of another
one. -/
theorem interlocks_of_closed (hexits : ∀ members, IsCycle d.Joins members → ∃ c, d.IsExit members c)
    {v : NodeId} (hclosed : ∀ w, ReflTransGen d.Joins v w → ReflTransGen d.Joins w v)
    (hv : d.OnCycle v) : ∃ c, ReflTransGen d.Joins v c ∧ d.Interlocks c := by
  obtain ⟨left, hleft, hvleft⟩ := hv
  obtain ⟨c, hexit⟩ := hexits left hleft
  obtain ⟨hc, hcond, _, e, he, rfl, hout⟩ := id hexit
  have hreach : ReflTransGen d.Joins v e.source := hleft.reaches hvleft hc
  have hstep : d.Joins e.source e.target := ⟨e, he, rfl, rfl⟩
  have hback : ReflTransGen d.Joins e.target e.source :=
    (hclosed _ (hreach.tail hstep)).trans hreach
  obtain ⟨entered, hentered, hsource, htarget⟩ := exists_isCycle_of_step hstep hback
  have hexit' : d.IsExit entered e.source := by
    obtain ⟨c', hc'⟩ := hexits entered hentered
    obtain rfl := hc'.2.2.1 e.source hsource hcond
    exact hc'
  exact ⟨e.source, hreach,
    fun u hu => (hclosed u (hreach.trans hu)).trans hreach,
    left, entered, hleft, hentered, hexit, hexit', e.target, htarget, hstep, hout⟩

/-- In a definition that passes its validation, every member of a loop leads to a node outside this
loop; and it leads to a node that lies on no loop, unless it leads to a condition that is the exit
of two loops, one of which it leaves only to enter the other. -/
theorem accepted_loops_can_be_left {c : Catalog} (hvalid : (d.validate c).valid = true)
    {members : List NodeId} (hcycle : IsCycle d.Joins members) {v : NodeId} (hv : v ∈ members) :
    (∃ u, ReflTransGen d.Joins v u ∧ u ∉ members) ∧
    ((∃ u, ReflTransGen d.Joins v u ∧ ¬ d.OnCycle u) ∨
      ∃ u, ReflTransGen d.Joins v u ∧ d.Interlocks u) := by
  have hexits := forall_controlled_iff.mp (controlled_of_valid hvalid)
  constructor
  · obtain ⟨exit, hexit⟩ := hexits members hcycle
    exact hexit.exists_outside hcycle hv
  · obtain ⟨last, hreach, hclosed⟩ := exists_closed (declared_of_onCycle ⟨members, hcycle, hv⟩)
    by_cases hlast : d.OnCycle last
    · obtain ⟨u, hu, hinterlocks⟩ := interlocks_of_closed hexits hclosed hlast
      exact Or.inr ⟨u, hreach.trans hu, hinterlocks⟩
    · exact Or.inl ⟨last, hreach, hlast⟩

/-- A catalog of steps and conditions that need no configuration. -/
def bareKinds : Catalog where
  kinds := Table.ofList
    [("step", ⟨"step", .bare "step", fun _ => .ok ⟨"step", [], fun _ => .done (.ok (.ofList []))⟩⟩),
      ("condition", ⟨"condition", .bare "condition",
        fun _ => .ok ⟨"condition", [], fun _ => .done (.ok (.ofList []))⟩⟩)]

/-- A draft is checked, and after the check it is written again, or mended and checked again, or
printed. -/
def review : Definition :=
  .plain "review"
    [.plain "draft" "step", .plain "check" "condition", .plain "mend" "step", .plain "print" "step"]
    [.plain "e1" "draft" "check", .plain "e2" "check" "draft", .plain "e3" "check" "mend",
      .plain "e4" "mend" "check", .plain "e5" "check" "print"]
    "draft" 3

theorem review_loops : review.loops = [⟨["draft", "check"], "e2", true, some "check"⟩,
    ⟨["check", "mend"], "e4", true, some "check"⟩] := by cbv

/-- From the draft one gets out of its loop, and to where there is no loop. -/
theorem review_can_be_left :
    (review.validate bareKinds).valid = true ∧ IsCycle review.Joins ["check", "draft"] ∧
    (∃ u, ReflTransGen review.Joins "draft" u ∧ u ∉ ["check", "draft"]) ∧
    ((∃ u, ReflTransGen review.Joins "draft" u ∧ ¬ review.OnCycle u) ∨
      ∃ u, ReflTransGen review.Joins "draft" u ∧ review.Interlocks u) := by
  have hvalid : (review.validate bareKinds).valid = true := valid_of_loops review_loops rfl rfl
  have hcycle : IsCycle review.Joins ["check", "draft"] := by decide
  exact ⟨hvalid, hcycle, accepted_loops_can_be_left hvalid hcycle (by decide)⟩

/-- The same without a way to print. -/
def endlessReview : Definition :=
  .plain "endless review"
    [.plain "draft" "step", .plain "check" "condition", .plain "mend" "step"]
    [.plain "e1" "draft" "check", .plain "e2" "check" "draft", .plain "e3" "check" "mend",
      .plain "e4" "mend" "check"]
    "draft" 3

/-- Each of the two loops is left only into the other.  The validation accepts that, but there is no
node on no loop. -/
theorem endlessReview_cannot_be_left :
    (endlessReview.validate bareKinds).valid = true ∧ endlessReview.OnCycle "check" ∧
      ∀ u, ReflTransGen endlessReview.Joins "check" u → endlessReview.OnCycle u := by
  have hdraft : IsCycle endlessReview.Joins ["draft", "check"] := by decide
  have hmend : IsCycle endlessReview.Joins ["check", "mend"] := by decide
  have hmembers : ∀ u ∈ endlessReview.ids, u ∈ ["draft", "check"] ∨ u ∈ ["check", "mend"] := by
    decide
  have hloops : endlessReview.loops = [⟨["draft", "check"], "e2", true, some "check"⟩,
      ⟨["check", "mend"], "e4", true, some "check"⟩] := by cbv
  refine ⟨valid_of_loops hloops rfl rfl, ⟨_, hdraft, by decide⟩, fun u hu => ?_⟩
  rcases hmembers u (declared_of_reaches (by decide) hu) with h | h
  · exact ⟨_, hdraft, h⟩
  · exact ⟨_, hmend, h⟩

end Definition
end Workflow
