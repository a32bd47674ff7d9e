import Workflow.Plan
import Workflow.Proofs.Construction
/-!
# Workflows under another cap

A definition may be given any cap but zero.  Neither its loops, nor what the validation finds, nor
its plan depend on the cap: they say what a workflow is like, and the cap only bounds its runs.
-/
namespace Workflow
namespace Definition

/-- The definition with another cap. -/
def recap (d : Definition) (cap : Nat) (h : 0 < cap) : Definition :=
  { d with cap, cap_pos := h }

variable {d : Definition} {cap : Nat} {hcap : 0 < cap}

/-- A definition takes every cap but zero, and nothing else about it changes. -/
theorem withCap_eq_ok (d : Definition) (h : 0 < cap) : d.withCap cap = .ok (d.recap cap h) :=
  withCap_eq_ok_iff.mpr ⟨rfl, rfl, rfl, rfl, rfl⟩

/-! ### What does not depend on the cap -/

theorem waysBack_recap (start last : NodeId) (free : List NodeId) :
    (d.recap cap hcap).waysBack start last free = d.waysBack start last free := by
  induction last, free using waysBack.induct with
  | case1 last free ih =>
      rw [waysBack, waysBack]
      apply List.flatMap_congr
      intro next _
      split
      · rfl
      · split
        · rename_i hfree
          rw [ih next hfree]
        · rfl

theorem cyclesFrom_recap (nodes : List NodeId) :
    (d.recap cap hcap).cyclesFrom nodes = d.cyclesFrom nodes := by
  induction nodes with
  | nil => rfl
  | cons start later ih =>
      rw [cyclesFrom, cyclesFrom, waysBack_recap, ih]
      rfl

theorem loops_recap : (d.recap cap hcap).loops = d.loops := by
  unfold loops cycles
  rw [cyclesFrom_recap]
  rfl

theorem validate_recap (c : Catalog) : (d.recap cap hcap).validate c = d.validate c := by
  unfold validate
  rw [loops_recap]
  rfl

end Definition

/-- The plan of the same workflow under another cap. -/
def Plan.recap (p : Plan) (cap : Nat) (h : 0 < cap) : Plan :=
  { p with definition := p.definition.recap cap h }

/-- A workflow has a plan under one cap if it has one under the other, and the two differ in nothing
else. -/
theorem Definition.plan_recap {d : Definition} {cap : Nat} {hcap : 0 < cap} {c : Catalog}
    {strict : Bool} {p : Plan} (hplan : d.plan c strict = .ok p) :
    (d.recap cap hcap).plan c strict = .ok (p.recap cap hcap) := by
  unfold plan planWith at hplan ⊢
  rw [validate_recap, loops_recap]
  dsimp only at hplan ⊢
  split at hplan
  · cases hplan
  · rename_i haccepted
    rw [if_neg haccepted]
    split at hplan
    · cases hplan
    · rename_i order horder
      have hsame : (d.recap cap hcap).orderAlong ((d.recap cap hcap).forwardEdges d.loops) =
        .ok order := horder
      obtain rfl := Except.ok.inj hplan
      rw [hsame]
      rfl

end Workflow
