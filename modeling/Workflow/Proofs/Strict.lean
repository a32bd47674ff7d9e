import Workflow.Engine.Handle
import Workflow.Proofs.Graph.Exits
/-!
# Strict mode

In strict mode warnings forbid a plan as errors do.  But the validation finds something in every
workflow: a graph has a node that no edge leaves, or it has a cycle, and both are remarked on.  So
in strict mode no workflow has a plan, and none is run that would have to be planned first.  A plan
that was made before is not checked again: `Engine.executePlan` runs it in strict mode as well.
-/
namespace Workflow

open Relation

namespace Definition

variable {d : Definition}

/-- From the entry point one gets to a node that no edge leaves, or to a cycle. -/
theorem exists_sink_or_isCycle (d : Definition) :
    (∃ id ∈ d.ids, d.outgoing id = []) ∨ ∃ members, IsCycle d.Joins members := by
  obtain ⟨last, hreach, hclosed⟩ := exists_closed d.entry_declared
  cases hout : d.outgoing last with
  | nil => exact Or.inl ⟨last, declared_of_reaches d.entry_declared hreach, hout⟩
  | cons e rest =>
      have hmem : e ∈ d.outgoing last := hout ▸ List.mem_cons_self
      obtain ⟨he, hsource⟩ := mem_outgoing.mp hmem
      have hstep : d.Joins last e.target := ⟨e, he, hsource, rfl⟩
      obtain ⟨members, hcycle, _⟩ :=
        exists_isCycle_of_step hstep (hclosed e.target (ReflTransGen.single hstep))
      exact Or.inr ⟨members, hcycle⟩

/-! ### What the validation finds -/

theorem exists_terminal_warning (c : Catalog) {id : NodeId} (hid : id ∈ d.ids)
    (hout : d.outgoing id = []) :
    ∃ f ∈ (d.validate c).warnings, f.code = .noOutgoingEdge ∧ f.nodes = [id] := by
  have hterminal : d.terminal.contains id = true := by
    rw [List.contains_iff_mem, terminal, List.mem_filter, hout]
    exact ⟨hid, rfl⟩
  obtain ⟨f, hf, hcode⟩ : ∃ f ∈ d.edgeWarnings id, f.code = .noOutgoingEdge ∧ f.nodes = [id] := by
    rw [edgeWarnings, if_pos hterminal]
    exact ⟨_, List.mem_append_right _ List.mem_cons_self, rfl, rfl⟩
  exact ⟨f, List.mem_append_right _ (List.mem_flatMap.mpr ⟨id, hid, hf⟩), hcode⟩

theorem exists_loop_warning (c : Catalog) {l : Loop} (hl : l ∈ d.loops) {id : NodeId}
    (hcontrolled : l.controlled = true) (hexit : l.exit = some id) :
    ∃ f ∈ (d.validate c).warnings, f.code = .controlledLoop ∧ f.nodes = [id] := by
  obtain ⟨f, hf, hcode⟩ : ∃ f, controlledWarning l = some f ∧
      f.code = .controlledLoop ∧ f.nodes = [id] := by
    rw [controlledWarning, hcontrolled, hexit]
    exact ⟨_, rfl, rfl, rfl⟩
  exact ⟨f, List.mem_append_left _ (List.mem_filterMap.mpr ⟨l, hl, hf⟩), hcode⟩

/-- What the validation finds in the shape of a graph. -/
inductive Remarked (d : Definition) (report : Report) : Prop where
  /-- No edge leaves a node, which is warned of. -/
  | sink {id : NodeId} {f : Finding} (hid : id ∈ d.ids) (hout : ∀ e ∈ d.edges, e.source ≠ id)
      (hf : f ∈ report.warnings) (hcode : f.code = .noOutgoingEdge) (hnodes : f.nodes = [id])
  /-- A cycle can be left, which is warned of. -/
  | controlled {members : List NodeId} {exit : NodeId} {f : Finding}
      (hcycle : IsCycle d.Joins members) (hexit : d.IsExit members exit)
      (hf : f ∈ report.warnings) (hcode : f.code = .controlledLoop) (hnodes : f.nodes = [exit])
  /-- A cycle cannot be left, which is an error. -/
  | circular {members : List NodeId} {f : Finding} (hcycle : IsCycle d.Joins members)
      (hclosed : ∀ exit, ¬ d.IsExit members exit)
      (hf : f ∈ report.errors) (hcode : f.code = .circularDependency)

theorem remarked_of_isCycle (c : Catalog) {members : List NodeId}
    (hcycle : IsCycle d.Joins members) : d.Remarked (d.validate c) := by
  obtain ⟨listed, hlisted, hrotated⟩ := exists_mem_cycles hcycle
  have hcycle' := hcycle.rotate hrotated
  have hl : d.loopOf listed ∈ d.loops := mem_loops.mpr ⟨listed, hlisted, rfl⟩
  cases hcontrolled : (d.loopOf listed).controlled with
  | true =>
      obtain ⟨exit, hexit⟩ := (controlled_loopOf hcycle').mp hcontrolled
      obtain ⟨f, hf, hcode, hnodes⟩ :=
        exists_loop_warning c hl hcontrolled ((exit_loopOf hcycle').mpr hexit)
      exact .controlled hcycle' hexit hf hcode hnodes
  | false =>
      have hnot : ¬ ∀ l ∈ d.loops, l.controlled = true := by
        intro hall
        rw [hall _ hl] at hcontrolled
        cases hcontrolled
      rw [← forall_code_ne_circular_iff c] at hnot
      push Not at hnot
      obtain ⟨f, hf, hcode⟩ := hnot
      refine .circular hcycle' (fun exit hexit => ?_) hf hcode
      rw [(controlled_loopOf hcycle').mpr ⟨exit, hexit⟩] at hcontrolled
      cases hcontrolled

theorem remarked (d : Definition) (c : Catalog) : d.Remarked (d.validate c) := by
  rcases d.exists_sink_or_isCycle with ⟨id, hid, hout⟩ | ⟨members, hcycle⟩
  · obtain ⟨f, hf, hcode, hnodes⟩ := exists_terminal_warning c hid hout
    refine .sink hid (fun e he hsource => ?_) hf hcode hnodes
    have hmem : e ∈ d.outgoing id := mem_outgoing.mpr ⟨he, hsource⟩
    rw [hout] at hmem
    cases hmem
  · exact remarked_of_isCycle c hcycle

theorem Remarked.findings {report : Report} (h : d.Remarked report) :
    report.errors ≠ [] ∨ report.warnings ≠ [] := by
  cases h with
  | sink hid hout hf hcode hnodes => exact Or.inr (List.ne_nil_of_mem hf)
  | controlled hcycle hexit hf hcode hnodes => exact Or.inr (List.ne_nil_of_mem hf)
  | circular hcycle hclosed hf hcode => exact Or.inl (List.ne_nil_of_mem hf)

/-- A strict plan needs a report without findings. -/
theorem plan_strict_of_findings {c : Catalog}
    (h : (d.validate c).errors ≠ [] ∨ (d.validate c).warnings ≠ []) :
    d.plan c true = .error (.rejected (d.validate c)) := by
  have hvalid : (d.validate c).valid = (d.validate c).errors.isEmpty := rfl
  rw [plan, if_pos]
  rw [hvalid, Report.hasWarnings]
  rcases h with h | h
  · simp [h]
  · simp [h]

end Definition

/-- Strict mode rejects every workflow.  Whatever the workflow and the catalog, the validation finds
something: a node that no edge leaves, or a cycle, which either can be left or not.  So no workflow
has a plan in strict mode, and on an engine with strict settings every run that begins with the
planning of a workflow, in the foreground or in the background, fails before it begins, with the
report of the validation.  Nothing is said of a plan that was made before and is handed to
`executePlan`, which validates nothing. -/
theorem Engine.strict_mode_rejects_everything (e : Engine) (hstrict : e.settings.strict = true)
    (d : Definition) :
    (∀ c : Catalog, d.Remarked (d.validate c) ∧
      ((d.validate c).errors ≠ [] ∨ (d.validate c).warnings ≠ []) ∧
      d.plan c true = .error (.rejected (d.validate c))) ∧
    e.plan d = .error (.rejected (e.validate d)) ∧
    (∀ {σ : Type} (initial : Fields) (world : World σ) (w : σ),
      e.execute d initial world w = (.unplanned (.rejected (e.validate d)), w)) ∧
    (∀ (initial : Fields) (network : Http.Request → Http.Reply) (cancelTime : Option Nat),
      (e.spawn d initial network cancelTime).result = .unplanned (.rejected (e.validate d))) ∧
    (Result.unplanned (.rejected (e.validate d))).status = .failed ∧
    (Result.unplanned (.rejected (e.validate d))).report = some (e.validate d) := by
  have hplan : e.plan d = .error (.rejected (e.validate d)) := by
    rw [plan, hstrict]
    exact Definition.plan_strict_of_findings (d.remarked e.catalog).findings
  have hexecute : ∀ {σ : Type} (initial : Fields) (world : World σ) (w : σ),
      e.execute d initial world w = (.unplanned (.rejected (e.validate d)), w) := by
    intro σ initial world w
    rw [execute, hplan]
  refine ⟨fun c => ?_, hplan, hexecute, fun initial network cancelTime => ?_, rfl, rfl⟩
  · have hfindings := (d.remarked c).findings
    exact ⟨d.remarked c, hfindings, Definition.plan_strict_of_findings hfindings⟩
  · rw [spawn, hexecute]

/-- An engine with strict settings. -/
def strictEngine : Engine :=
  .ofCatalog Definition.bareKinds { Settings.standard with strict := true }

/-- The review has a plan, but not in strict mode. -/
theorem strictEngine_rejects_review :
    (Definition.review.validate Definition.bareKinds).valid = true ∧
    strictEngine.plan Definition.review =
      .error (.rejected (Definition.review.validate Definition.bareKinds)) := by
  refine ⟨Definition.valid_of_loops Definition.review_loops rfl rfl, ?_⟩
  exact (Engine.strict_mode_rejects_everything strictEngine rfl Definition.review).2.1

end Workflow
