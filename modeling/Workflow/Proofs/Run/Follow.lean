import Workflow.Proofs.Definition
import Workflow.Run.State
/-!
# What an execution leads to

The nodes that an execution leads to are the targets of the edges it follows: those without a
condition, and those whose condition holds.
-/
namespace Workflow
namespace Job

variable {j : Job} {state : Guard.State} {targets : List NodeId}

/-- The condition of an edge holds; an edge without one is always followed. -/
def Takes (j : Job) (state : Guard.State) (e : Edge) : Prop :=
  ∀ expression, e.condition = some expression → j.evaluator expression state = .ok true

/-- Each edge is followed or passed over, and the edges behind it are judged as well. -/
theorem followEdges_cons {e : Edge} {edges : List Edge}
    (h : (j.followEdges state (e :: edges)).2 = .ok targets) :
    ∃ rest, (j.followEdges state edges).2 = .ok rest ∧
      ((j.Takes state e ∧ targets = e.target :: rest) ∨ (¬ j.Takes state e ∧ targets = rest)) := by
  unfold followEdges at h
  split at h
  · rename_i hnone
    obtain ⟨rest, hrest, htargets⟩ := map_cons_eq_ok_iff.mp h
    refine ⟨rest, hrest, Or.inl ⟨?_, htargets⟩⟩
    intro expression hsome
    rw [hnone] at hsome
    cases hsome
  · rename_i expression hsome
    split at h
    · cases h
    · rename_i taken hjudged
      have htakes : j.Takes state e ↔ taken = true := by
        simp [Takes, hsome, hjudged]
      dsimp only at h
      split at h
      · rename_i htaken
        obtain ⟨rest, hrest, htargets⟩ := map_cons_eq_ok_iff.mp h
        exact ⟨rest, hrest, Or.inl ⟨htakes.mpr htaken, htargets⟩⟩
      · rename_i hleft
        exact ⟨targets, h, Or.inr ⟨htakes.not.mpr hleft, rfl⟩⟩

theorem mem_followEdges {edges : List Edge} (h : (j.followEdges state edges).2 = .ok targets)
    {t : NodeId} : t ∈ targets ↔ ∃ e ∈ edges, e.target = t ∧ j.Takes state e := by
  induction edges generalizing targets with
  | nil =>
      obtain rfl := Except.ok.inj h
      simp
  | cons e edges ih =>
      obtain ⟨rest, hrest, hcase⟩ := followEdges_cons h
      simp only [List.mem_cons, exists_eq_or_imp, ← ih hrest]
      rcases hcase with ⟨htakes, rfl⟩ | ⟨hleft, rfl⟩
      · simp [htakes, eq_comm]
      · simp [hleft]

/-- If every edge can be judged, the targets come in the order of the edges that are taken. -/
theorem followEdges_eq_ok {edges : List Edge} {taken : Edge → Bool}
    (h : ∀ e ∈ edges, (e.condition = none ∧ taken e = true) ∨ ∃ expression,
      e.condition = some expression ∧ j.evaluator expression state = .ok (taken e)) :
    (j.followEdges state edges).2 = .ok ((edges.filter taken).map Edge.target) := by
  induction edges with
  | nil => rfl
  | cons e edges ih =>
      obtain ⟨hedge, hedges⟩ := List.forall_mem_cons.mp h
      rw [followEdges, List.filter_cons]
      rcases hedge with ⟨hnone, htaken⟩ | ⟨expression, hsome, hjudged⟩
      · simp only [hnone, htaken, ih hedges]
        rfl
      · simp only [hsome, hjudged, ih hedges]
        cases taken e <;> rfl

/-- An execution leads to the targets of the edges that it follows. -/
theorem mem_follow {id t : NodeId} {output : Output} {iteration : Nat}
    (h : (j.follow id output iteration).2 = .ok targets) :
    t ∈ targets ↔ ∃ e ∈ j.definition.outgoing id, e.target = t ∧
      j.Takes ⟨id, ((j.definition.node? id).map Node.kind).getD "", output.verdict, output.fields,
        iteration⟩ e := by
  dsimp only [follow] at h
  split at h
  · cases h
  · exact mem_followEdges h

/-- Which edges are followed is judged edge by edge, unless a condition has come to no verdict. -/
theorem follow_eq_followEdges {id : NodeId} {output : Output}
    (h : j.definition.IsCondition id → output.verdict ≠ none) (iteration : Nat) :
    j.follow id output iteration =
      j.followEdges ⟨id, ((j.definition.node? id).map Node.kind).getD "", output.verdict,
        output.fields, iteration⟩ (j.definition.outgoing id) := by
  rw [follow]
  exact if_neg fun ⟨hkind, hmute⟩ => h (Definition.kind_eq_condition_iff.mp hkind) hmute

/-- Why it is not known what an execution leads to: a condition has come to no verdict, or one of
the edges cannot be judged. -/
inductive Strays (j : Job) (id : NodeId) (output : Output) : RunError → Prop where
  | noVerdict {n : Node} (found : j.definition.node? id = some n) (kind : n.kind = conditionKind)
      (none : output.verdict = none) : Strays j id output (.noVerdict id)
  | guard {e : Edge} {expression : String} {state : Guard.State} {f : Failure}
      (declared : e ∈ j.definition.edges) (condition : e.condition = some expression)
      (judged : j.evaluator expression state = .error f) : Strays j id output (.guard e.id f)

theorem strays_of_followEdges {edges : List Edge} {e : RunError}
    (hedges : ∀ edge ∈ edges, edge ∈ j.definition.edges) (id : NodeId) (output : Output)
    (h : (j.followEdges state edges).2 = .error e) : j.Strays id output e := by
  induction edges with
  | nil => cases h
  | cons edge edges ih =>
      obtain ⟨hedge, hedges⟩ := List.forall_mem_cons.mp hedges
      -- unless this edge cannot be judged, the answer is that of the edges behind it
      have hrest : ∀ answer, (j.followEdges state edges).2 = answer →
          (answer.map (edge.target :: ·) = .error e ∨ answer = .error e) →
            j.Strays id output e := by
        intro answer hanswer herror
        cases answer with
        | ok targets => rcases herror with herror | herror <;> cases herror
        | error e' =>
            have hsame : e' = e := by rcases herror with herror | herror <;> cases herror <;> rfl
            exact ih hedges (hsame ▸ hanswer)
      unfold followEdges at h
      split at h
      · exact hrest _ rfl (Or.inl h)
      · rename_i expression hcondition
        split at h
        · rename_i f hjudged
          obtain rfl := Except.error.inj h
          exact .guard hedge hcondition hjudged
        · dsimp only at h
          split at h
          · exact hrest _ rfl (Or.inl h)
          · exact hrest _ rfl (Or.inr h)

theorem strays_of_follow {id : NodeId} {output : Output} {iteration : Nat} {e : RunError}
    (h : (j.follow id output iteration).2 = .error e) : j.Strays id output e := by
  dsimp only [follow] at h
  split at h
  · rename_i hmute
    obtain rfl := Except.error.inj h
    obtain ⟨hcondition, hverdict⟩ := hmute
    obtain ⟨n, hn, hid, hkind⟩ := Definition.kind_eq_condition_iff.mp hcondition
    exact .noVerdict (Definition.node?_eq_some_iff.mpr ⟨hn, hid⟩) hkind hverdict
  · exact strays_of_followEdges (fun _ he => (Definition.mem_outgoing.mp he).1) id output h

theorem joins_of_mem_follow {id t : NodeId} {output : Output} {iteration : Nat}
    (h : (j.follow id output iteration).2 = .ok targets) (ht : t ∈ targets) :
    j.definition.Joins id t := by
  obtain ⟨e, he, htarget, _⟩ := (mem_follow h).mp ht
  obtain ⟨hmem, hsource⟩ := Definition.mem_outgoing.mp he
  exact ⟨e, hmem, hsource, htarget⟩

/-! ### Jobs that agree on their conditions -/

theorem followEdges_congr (j j' : Job) (h : j'.evaluator = j.evaluator) (state : Guard.State)
    (edges : List Edge) : j'.followEdges state edges = j.followEdges state edges := by
  induction edges with
  | nil => rfl
  | cons e edges ih => simp only [followEdges, ih, h]

/-- What an execution leads to is up to its node, the edges that leave it, and the evaluator. -/
theorem follow_congr (j j' : Job) (hevaluator : j'.evaluator = j.evaluator) {id : NodeId}
    (hnode : j'.definition.node? id = j.definition.node? id)
    (hleaves : j'.definition.outgoing id = j.definition.outgoing id) (output : Output)
    (iteration : Nat) : j'.follow id output iteration = j.follow id output iteration := by
  rw [follow, follow, hnode, hleaves, followEdges_congr j j' hevaluator]

end Job
end Workflow
