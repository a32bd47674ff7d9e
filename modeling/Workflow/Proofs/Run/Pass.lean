import Workflow.Proofs.Plan
import Workflow.Proofs.Run.Follow
/-!
# Sequential passes

A sequential pass takes the nodes of a plan in their order, each once.  It runs a node when it is
the entry point or a node that ran before has led to it, and gives it the outputs of the nodes
before it that lead to it.  When no edge leads back, what the pass makes of each node depends only
on what the whole pass has come to.
-/
namespace Workflow

/-- What a sequential pass has come to. -/
structure Pass where
  /-- The nodes that ran. -/
  ran : List NodeId
  /-- The nodes that an execution has led to. -/
  wanted : List NodeId
  outputs : Table Fields
  errors : List RunError

namespace Job

/-- The outputs at hand of the nodes that lead to a node. -/
def inputsFrom (j : Job) (outputs : Table Fields) (id : NodeId) : Inputs :=
  Table.ofList ((j.definition.incoming id).filterMap fun e =>
    (outputs.get? e.source).map fun fields => (e.source, fields))

/-- Runs a node for the first time: its output and the nodes that it leads to, or what goes wrong in
the execution or at its edges. -/
def attempt (j : Job) (behave : Context → Outcome) (outputs : Table Fields) (id : NodeId) :
    Except RunError (Output × List NodeId) :=
  match j.instance? id with
  | none => .error (.missingInstance id)
  | some _ =>
      match behave ⟨id, 1, j.inputsFrom outputs id, j.initial⟩ with
      | .error f => .error (.node id f)
      | .ok output => (j.follow id output 1).2.map fun targets => (output, targets)

/-- Takes the next node of a pass. -/
def visit (j : Job) (behave : Context → Outcome) (p : Pass) (id : NodeId) : Pass :=
  if id = j.definition.entry ∨ id ∈ p.wanted then
    match j.attempt behave p.outputs id with
    | .error e => { p with ran := p.ran ++ [id], errors := p.errors ++ [e] }
    | .ok (output, targets) =>
        { ran := p.ran ++ [id]
          wanted := p.wanted ++ targets
          outputs := p.outputs.insert id output.fields
          errors := p.errors }
  else p

/-- Takes the nodes of the plan in their order. -/
def pass (j : Job) (behave : Context → Outcome) : Pass :=
  j.plan.order.foldl (j.visit behave) ⟨[], [], .empty, []⟩

variable {j : Job} {behave : Context → Outcome} {outputs outputs' : Table Fields} {id : NodeId}

theorem attempt_of_none (hnone : j.instance? id = none) :
    j.attempt behave outputs id = .error (.missingInstance id) := by
  unfold attempt
  rw [hnone]

theorem attempt_of_error {made : Instance} (hmade : j.instance? id = some made) {f : Failure}
    (hended : behave ⟨id, 1, j.inputsFrom outputs id, j.initial⟩ = .error f) :
    j.attempt behave outputs id = .error (.node id f) := by
  unfold attempt
  rw [hmade]
  dsimp only
  rw [hended]

theorem attempt_of_ok {made : Instance} (hmade : j.instance? id = some made) {output : Output}
    (hended : behave ⟨id, 1, j.inputsFrom outputs id, j.initial⟩ = .ok output) :
    j.attempt behave outputs id =
      (j.follow id output 1).2.map fun targets => (output, targets) := by
  unfold attempt
  rw [hmade]
  dsimp only
  rw [hended]

theorem attempt_eq_ok_iff {output : Output} {targets : List NodeId} :
    j.attempt behave outputs id = .ok (output, targets) ↔
      (∃ made, j.instance? id = some made) ∧
      behave ⟨id, 1, j.inputsFrom outputs id, j.initial⟩ = .ok output ∧
      (j.follow id output 1).2 = .ok targets := by
  constructor
  · intro h
    cases hmade : j.instance? id with
    | none =>
        rw [attempt_of_none hmade] at h
        cases h
    | some made =>
        cases hended : behave ⟨id, 1, j.inputsFrom outputs id, j.initial⟩ with
        | error f =>
            rw [attempt_of_error hmade hended] at h
            cases h
        | ok result =>
            rw [attempt_of_ok hmade hended] at h
            cases hfollow : (j.follow id result 1).2 with
            | error e =>
                rw [hfollow] at h
                cases h
            | ok followed =>
                rw [hfollow] at h
                obtain ⟨rfl, rfl⟩ := Prod.mk.inj (Except.ok.inj h)
                exact ⟨⟨made, rfl⟩, rfl, hfollow⟩
  · rintro ⟨⟨made, hmade⟩, hended, hfollow⟩
    rw [attempt_of_ok hmade hended, hfollow]
    rfl

theorem joins_of_attempt {output : Output} {targets : List NodeId}
    (h : j.attempt behave outputs id = .ok (output, targets)) {t : NodeId} (ht : t ∈ targets) :
    j.definition.Joins id t :=
  joins_of_mem_follow (attempt_eq_ok_iff.mp h).2.2 ht

/-- Only the outputs of the nodes that lead to it matter to a node. -/
theorem inputsFrom_congr
    (h : ∀ u, j.definition.Joins u id → outputs.get? u = outputs'.get? u) :
    j.inputsFrom outputs id = j.inputsFrom outputs' id := by
  unfold inputsFrom
  congr 1
  apply List.filterMap_congr
  intro e he
  obtain ⟨hmem, htarget⟩ := Definition.mem_incoming.mp he
  rw [h e.source ⟨e, hmem, rfl, htarget⟩]

theorem attempt_congr (h : ∀ u, j.definition.Joins u id → outputs.get? u = outputs'.get? u) :
    j.attempt behave outputs id = j.attempt behave outputs' id := by
  unfold attempt
  rw [inputsFrom_congr h]

theorem attempt_parallel (j : Job) (parallel : Nat) (behave : Context → Outcome)
    (outputs : Table Fields) (id : NodeId) :
    { j with parallel := parallel }.attempt behave outputs id = j.attempt behave outputs id := by
  have hfollow : ∀ output,
      { j with parallel := parallel }.follow id output 1 = j.follow id output 1 :=
    fun output => follow_congr j { j with parallel := parallel } rfl rfl rfl output 1
  unfold attempt
  simp only [hfollow]
  rfl

/-- A pass takes one node at a time, however many executions may be in flight in a run. -/
theorem pass_parallel (j : Job) (parallel : Nat) (behave : Context → Outcome) :
    { j with parallel := parallel }.pass behave = j.pass behave := by
  have hvisit : { j with parallel := parallel }.visit behave = j.visit behave := by
    funext p id
    unfold visit
    rw [attempt_parallel]
    rfl
  unfold pass
  rw [hvisit]

end Job

/-- The nodes taken so far add up: what the pass holds of each is what running it on the outputs of
the pass gives. -/
structure Pass.Settled (j : Job) (behave : Context → Outcome) (visited : List NodeId)
    (p : Pass) : Prop where
  ran_iff : ∀ id, id ∈ p.ran ↔ id ∈ visited ∧ (id = j.definition.entry ∨ id ∈ p.wanted)
  wanted_iff : ∀ id, id ∈ p.wanted ↔ ∃ n ∈ p.ran, ∃ output targets,
    j.attempt behave p.outputs n = .ok (output, targets) ∧ id ∈ targets
  outputs_iff : ∀ id fields, p.outputs.get? id = some fields ↔ id ∈ p.ran ∧
    ∃ output targets, j.attempt behave p.outputs id = .ok (output, targets) ∧
      output.fields = fields
  errors_iff : p.errors = [] ↔ ∀ id ∈ p.ran, ∃ output targets,
    j.attempt behave p.outputs id = .ok (output, targets)

namespace Pass

variable {j : Job} {behave : Context → Outcome} {visited : List NodeId} {p : Pass} {v : NodeId}

theorem settled_nil : Settled j behave [] ⟨[], [], .empty, []⟩ := by
  constructor <;> simp

/-- A node that fails is counted among those that ran; nothing follows from it. -/
theorem Settled.failed (h : p.Settled j behave visited)
    (hcalled : v = j.definition.entry ∨ v ∈ p.wanted) {e : RunError}
    (hattempt : j.attempt behave p.outputs v = .error e) :
    Settled j behave (visited ++ [v])
      { p with ran := p.ran ++ [v], errors := p.errors ++ [e] } := by
  have hran : ∀ n, n ∈ p.ran ++ [v] ↔ n ∈ p.ran ∨ n = v := by simp
  have hok : ∀ n, n ∈ p.ran ++ [v] → ∀ output targets,
      j.attempt behave p.outputs n = .ok (output, targets) → n ∈ p.ran := by
    intro n hn output targets hok
    refine ((hran n).mp hn).resolve_right ?_
    rintro rfl
    rw [hattempt] at hok
    cases hok
  exact {
    ran_iff := fun id => by
      rw [hran, h.ran_iff, List.mem_append, List.mem_singleton, or_and_right]
      apply or_congr_right
      refine (and_iff_left_of_imp ?_).symm
      rintro rfl
      exact hcalled
    wanted_iff := fun id => by
      rw [h.wanted_iff]
      constructor
      · rintro ⟨n, hn, hled⟩
        exact ⟨n, (hran n).mpr (Or.inl hn), hled⟩
      · rintro ⟨n, hn, output, targets, hended, hid⟩
        exact ⟨n, hok n hn output targets hended, output, targets, hended, hid⟩
    outputs_iff := fun id fields => by
      rw [h.outputs_iff]
      constructor
      · rintro ⟨hid, hended⟩
        exact ⟨(hran id).mpr (Or.inl hid), hended⟩
      · rintro ⟨hid, output, targets, hended, hfields⟩
        exact ⟨hok id hid output targets hended, output, targets, hended, hfields⟩
    errors_iff := by
      refine ⟨fun hnone => absurd hnone (by simp), fun hall => ?_⟩
      obtain ⟨output, targets, hended⟩ := hall v ((hran v).mpr (Or.inr rfl))
      rw [hattempt] at hended
      cases hended }

/-- The nodes taken so far do not look at the outputs of the node taken next, nor does it itself. -/
theorem Settled.attempt_insert (h : p.Settled j behave visited)
    (hlater : ∀ n, n ∈ visited ∨ n = v → ¬ j.definition.Joins v n) (fields : Fields) {n : NodeId}
    (hn : n ∈ p.ran ∨ n = v) :
    j.attempt behave (p.outputs.insert v fields) n = j.attempt behave p.outputs n := by
  apply Job.attempt_congr
  intro u hu
  rw [Table.get?_insert, if_neg]
  rintro rfl
  exact hlater n (hn.imp_left fun hold => ((h.ran_iff n).mp hold).1) hu

/-- A node that ends well leaves its outputs and the nodes that it leads to. -/
theorem Settled.succeeded (h : p.Settled j behave visited)
    (hlater : ∀ n, n ∈ visited ∨ n = v → ¬ j.definition.Joins v n)
    (hcalled : v = j.definition.entry ∨ v ∈ p.wanted) {output : Output} {targets : List NodeId}
    (hattempt : j.attempt behave p.outputs v = .ok (output, targets)) :
    Settled j behave (visited ++ [v])
      { ran := p.ran ++ [v], wanted := p.wanted ++ targets
        outputs := p.outputs.insert v output.fields, errors := p.errors } := by
  have hran : ∀ n, n ∈ p.ran ++ [v] ↔ n ∈ p.ran ∨ n = v := by simp
  have hsame : ∀ n, n ∈ p.ran ∨ n = v →
      j.attempt behave (p.outputs.insert v output.fields) n = j.attempt behave p.outputs n :=
    fun _ hn => h.attempt_insert hlater output.fields hn
  have hself : j.attempt behave (p.outputs.insert v output.fields) v = .ok (output, targets) :=
    (hsame v (Or.inr rfl)).trans hattempt
  exact {
    ran_iff := fun id => by
      rw [hran, h.ran_iff, List.mem_append, List.mem_append, List.mem_singleton]
      constructor
      · rintro (⟨hold, hreason⟩ | rfl)
        · exact ⟨Or.inl hold, hreason.imp_right Or.inl⟩
        · exact ⟨Or.inr rfl, hcalled.imp_right Or.inl⟩
      · rintro ⟨hold | hid, hreason⟩
        · refine Or.inl ⟨hold, hreason.imp_right fun hwanted => hwanted.resolve_right fun ht => ?_⟩
          exact hlater id (Or.inl hold) (Job.joins_of_attempt hattempt ht)
        · exact Or.inr hid
    wanted_iff := fun id => by
      rw [List.mem_append, h.wanted_iff]
      constructor
      · rintro (⟨n, hn, hled⟩ | ht)
        · refine ⟨n, (hran n).mpr (Or.inl hn), ?_⟩
          rwa [hsame n (Or.inl hn)]
        · exact ⟨v, (hran v).mpr (Or.inr rfl), output, targets, hself, ht⟩
      · rintro ⟨n, hn, result, led, hended, hid⟩
        rcases (hran n).mp hn with hold | rfl
        · rw [hsame n (Or.inl hold)] at hended
          exact Or.inl ⟨n, hold, result, led, hended, hid⟩
        · obtain ⟨_, rfl⟩ := Prod.mk.inj (Except.ok.inj (hself.symm.trans hended))
          exact Or.inr hid
    outputs_iff := fun id fields => by
      rw [Table.get?_insert, hran]
      by_cases hid : id = v
      · subst hid
        rw [if_pos rfl, hself, Option.some.injEq]
        constructor
        · intro hfields
          exact ⟨Or.inr rfl, output, targets, rfl, hfields⟩
        · rintro ⟨_, result, led, hended, hfields⟩
          obtain ⟨rfl, _⟩ := Prod.mk.inj (Except.ok.inj hended)
          exact hfields
      · rw [if_neg hid, h.outputs_iff, or_iff_left hid]
        apply and_congr_right
        intro hold
        rw [hsame id (Or.inl hold)]
    errors_iff := by
      rw [h.errors_iff]
      constructor
      · intro hall n hn
        rcases (hran n).mp hn with hold | rfl
        · rw [hsame n (Or.inl hold)]
          exact hall n hold
        · exact ⟨output, targets, hself⟩
      · intro hall n hn
        rw [← hsame n (Or.inl hn)]
        exact hall n ((hran n).mpr (Or.inl hn)) }

/-- A node that nothing calls for is passed over. -/
theorem Settled.skipped (h : p.Settled j behave visited)
    (hcalled : ¬ (v = j.definition.entry ∨ v ∈ p.wanted)) :
    p.Settled j behave (visited ++ [v]) := by
  refine ⟨?_, h.wanted_iff, h.outputs_iff, h.errors_iff⟩
  intro id
  rw [h.ran_iff, List.mem_append, List.mem_singleton]
  apply and_congr_left
  intro hreason
  refine (or_iff_left ?_).symm
  rintro rfl
  exact hcalled hreason

theorem Settled.visit (h : p.Settled j behave visited)
    (hlater : ∀ n, n ∈ visited ∨ n = v → ¬ j.definition.Joins v n) :
    (j.visit behave p v).Settled j behave (visited ++ [v]) := by
  unfold Job.visit
  split
  · rename_i hcalled
    split
    · rename_i e hattempt
      exact h.failed hcalled hattempt
    · rename_i output targets hattempt
      exact h.succeeded hlater hcalled hattempt
  · rename_i hcalled
    exact h.skipped hcalled

/-- The order of the plan lets every node follow those that lead to it, unless an edge leads back.
-/
theorem settled_pass (hplan : j.plan.Straight) (behave : Context → Outcome) :
    (j.pass behave).Settled j behave j.plan.order := by
  suffices hprefix : ∀ visited after, j.plan.order = visited ++ after →
      (visited.foldl (j.visit behave) ⟨[], [], .empty, []⟩).Settled j behave visited from
    hprefix j.plan.order [] (List.append_nil _).symm
  intro visited
  induction visited using List.reverseRecOn with
  | nil =>
      intro _ _
      exact settled_nil
  | append_singleton visited v ih =>
      intro after hsplit
      rw [List.append_assoc, List.singleton_append] at hsplit
      have hnodup := hplan.toSound.order_nodup
      rw [hsplit, List.nodup_middle, List.nodup_cons, List.mem_append, not_or] at hnodup
      rw [List.foldl_append, List.foldl_cons, List.foldl_nil]
      refine (ih _ hsplit).visit ?_
      rintro n (hn | rfl) hjoins
      · obtain ⟨before, rest, rfl⟩ := List.append_of_mem hn
        rw [List.append_assoc, List.cons_append] at hsplit
        have hv := hplan.mem_before before _ n hsplit v (hplan.forward v n hjoins)
        exact hnodup.1.1 (List.mem_append_left _ hv)
      · exact hnodup.1.1 (hplan.mem_before visited after n hsplit n (hplan.forward n n hjoins))

theorem Settled.entry_mem_ran (h : p.Settled j behave j.plan.order) (hplan : j.plan.Sound) :
    j.definition.entry ∈ p.ran :=
  (h.ran_iff _).mpr ⟨hplan.order_perm.mem_iff.mpr j.definition.entry_declared, Or.inl rfl⟩

theorem Settled.mem_ran_of_led (h : p.Settled j behave j.plan.order) (hplan : j.plan.Sound)
    (hv : v ∈ p.ran) {output : Output} {targets : List NodeId}
    (hok : j.attempt behave p.outputs v = .ok (output, targets)) {t : NodeId} (ht : t ∈ targets) :
    t ∈ p.ran := by
  have hdeclared := Definition.target_declared (Job.joins_of_attempt hok ht)
  exact (h.ran_iff t).mpr ⟨hplan.order_perm.mem_iff.mpr hdeclared,
    Or.inr ((h.wanted_iff t).mpr ⟨v, hv, output, targets, hok, ht⟩)⟩

theorem Settled.errors_ne_nil (h : p.Settled j behave visited) (hv : v ∈ p.ran) {e : RunError}
    (hattempt : j.attempt behave p.outputs v = .error e) : p.errors ≠ [] := by
  intro hnone
  obtain ⟨output, targets, hok⟩ := h.errors_iff.mp hnone v hv
  rw [hattempt] at hok
  cases hok

end Pass
end Workflow
