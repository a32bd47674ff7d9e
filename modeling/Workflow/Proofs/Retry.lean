import Workflow.Proofs.Findings
import Workflow.Proofs.Guard
import Workflow.Proofs.Run.Lone
/-!
# Steps that are done again until a check passes

A row of steps leads from a start to a check.  The check leads back to the first step as long as it
does not pass, and on to an output once it does.  Such a workflow has a plan, since every cycle of
it goes through the check; and under the standard evaluator each of its nodes leads to just one
other, the check by its verdict.
-/
namespace Workflow

/-- The nodes of a workflow whose steps are done again until a check passes.  There is at least one
step. -/
structure Retry where
  start : NodeId
  first : NodeId
  rest : List NodeId
  check : NodeId
  output : NodeId

namespace Retry

/-- The nodes that may run more than once: the steps, and then the check. -/
def members (l : Retry) : List NodeId := l.first :: l.rest ++ [l.check]

/-- The way from the start to the check. -/
def row (l : Retry) : List NodeId := l.start :: l.members

/-- The ends and the conditions of the edges. -/
def wires (l : Retry) : List (NodeId × NodeId × Option String) :=
  (l.row.zip l.row.tail).map (fun ends => (ends.1, ends.2, none)) ++
    [(l.check, l.first, some "false"), (l.check, l.output, some "true")]

/-- The workflow has these nodes and these edges, in any order of declaration.  It begins at the
start, and the check is its only condition. -/
structure Shapes (l : Retry) (d : Definition) : Prop where
  nodes : d.ids.Perm (l.row ++ [l.output])
  edges : (d.edges.map fun e => (e.source, e.target, e.condition)).Perm l.wires
  entry : d.entry = l.start
  condition : ∀ n ∈ d.nodes, n.kind = conditionKind ↔ n.id = l.check

variable {l : Retry} {d : Definition} {u v : NodeId}

theorem row_eq (l : Retry) : l.row = l.start :: l.first :: l.rest ++ [l.check] :=
  rfl

theorem mem_wires_iff {condition : Option String} : (u, v, condition) ∈ l.wires ↔
    ((u, v) ∈ l.row.zip l.row.tail ∧ condition = none) ∨
      u = l.check ∧ ((v = l.first ∧ condition = some "false") ∨
        (v = l.output ∧ condition = some "true")) := by
  rw [wires, List.mem_append, List.mem_map]
  constructor
  · rintro (⟨⟨_, _⟩, hends, heq⟩ | hmem)
    · obtain ⟨rfl, rfl, rfl⟩ : _ ∧ _ ∧ _ := by simpa using heq
      exact Or.inl ⟨hends, rfl⟩
    · right
      simpa [and_or_left] using hmem
  · rintro (⟨hends, rfl⟩ | ⟨rfl, ⟨rfl, rfl⟩ | ⟨rfl, rfl⟩⟩)
    · exact Or.inl ⟨(u, v), hends, rfl⟩
    · simp
    · simp

namespace Shapes

theorem nodup (h : l.Shapes d) : (l.row ++ [l.output]).Nodup :=
  h.nodes.nodup_iff.mp d.ids_nodup

theorem row_nodup (h : l.Shapes d) : l.row.Nodup :=
  (List.nodup_append'.mp h.nodup).1

theorem output_not_mem_row (h : l.Shapes d) : l.output ∉ l.row :=
  fun hmem => (List.nodup_append'.mp h.nodup).2.2 hmem List.mem_cons_self

theorem check_ne_output (h : l.Shapes d) : l.check ≠ l.output := by
  intro heq
  apply h.output_not_mem_row
  rw [← heq, row_eq]
  exact List.mem_append_right _ List.mem_cons_self

theorem exists_edge_iff (h : l.Shapes d) {condition : Option String} :
    (∃ e ∈ d.edges, e.source = u ∧ e.target = v ∧ e.condition = condition) ↔
      (u, v, condition) ∈ l.wires := by
  rw [← h.edges.mem_iff, List.mem_map]
  simp only [Prod.mk.injEq]

theorem mem_wires_of_mem (h : l.Shapes d) {e : Edge} (he : e ∈ d.edges) :
    (e.source, e.target, e.condition) ∈ l.wires :=
  h.exists_edge_iff.mp ⟨e, he, rfl, rfl, rfl⟩

theorem joins_iff (h : l.Shapes d) : d.Joins u v ↔
    (u, v) ∈ l.row.zip l.row.tail ∨ u = l.check ∧ (v = l.first ∨ v = l.output) := by
  constructor
  · rintro ⟨e, he, rfl, rfl⟩
    exact (mem_wires_iff.mp (h.mem_wires_of_mem he)).imp And.left
      fun ⟨hsource, htarget⟩ => ⟨hsource, htarget.imp And.left And.left⟩
  · have hjoins : ∀ {condition}, (u, v, condition) ∈ l.wires → d.Joins u v := by
      intro condition hwire
      obtain ⟨e, he, hsource, htarget, _⟩ := h.exists_edge_iff.mpr hwire
      exact ⟨e, he, hsource, htarget⟩
    rintro (hends | ⟨hu, hv | hv⟩)
    · exact hjoins (mem_wires_iff.mpr (Or.inl ⟨hends, rfl⟩))
    · exact hjoins (mem_wires_iff.mpr (Or.inr ⟨hu, Or.inl ⟨hv, rfl⟩⟩))
    · exact hjoins (mem_wires_iff.mpr (Or.inr ⟨hu, Or.inr ⟨hv, rfl⟩⟩))

/-- Along the row one gets ahead, and the check is its last node. -/
theorem idxOf_lt_of_mem_zip (h : l.Shapes d) (hends : (u, v) ∈ l.row.zip l.row.tail) :
    l.row.idxOf u < l.row.idxOf v ∧ l.row.idxOf u < l.row.idxOf l.check := by
  obtain ⟨before, after, hsplit⟩ := mem_zip_tail_iff.mp hends
  have hlast : l.row.getLast? = some l.check := by
    rw [row_eq]
    exact List.getLast?_concat
  rw [hsplit, List.getLast?_append_cons, List.getLast?_cons_cons] at hlast
  exact ⟨idxOf_lt_idxOf_of_split h.row_nodup hsplit List.mem_cons_self,
    idxOf_lt_idxOf_of_split h.row_nodup hsplit (List.mem_of_getLast? hlast)⟩

theorem ne_check_of_mem_zip (h : l.Shapes d) (hends : (u, v) ∈ l.row.zip l.row.tail) :
    u ≠ l.check := by
  rintro rfl
  exact absurd (h.idxOf_lt_of_mem_zip hends).2 (Nat.lt_irrefl _)

/-- In the row there is one next node. -/
theorem eq_of_mem_zip (h : l.Shapes d) {v' : NodeId} (hends : (u, v) ∈ l.row.zip l.row.tail)
    (hends' : (u, v') ∈ l.row.zip l.row.tail) : v' = v := by
  obtain ⟨before, after, hsplit⟩ := mem_zip_tail_iff.mp hends
  obtain ⟨before', after', hsplit'⟩ := mem_zip_tail_iff.mp hends'
  have hnodup := h.row_nodup
  rw [hsplit, List.nodup_middle, List.nodup_cons, List.mem_append, not_or] at hnodup
  obtain ⟨⟨hbefore, hafter⟩, _⟩ := hnodup
  obtain ⟨_, _, hrest⟩ :=
    (List.append_cons_inj_of_notMem hbefore hafter).mp (hsplit.symm.trans hsplit')
  exact (List.cons.inj hrest).1.symm

/-! ### The plan -/

theorem isCondition_iff (h : l.Shapes d) : d.IsCondition u ↔ u = l.check := by
  constructor
  · rintro ⟨n, hn, rfl, hkind⟩
    exact (h.condition n hn).mp hkind
  · rintro rfl
    have hdeclared : l.check ∈ d.ids := by
      rw [h.nodes.mem_iff, row_eq]
      simp
    obtain ⟨n, hn, hid⟩ := List.mem_map.mp hdeclared
    exact ⟨n, hn, hid, (h.condition n hn).mpr hid⟩

/-- Every cycle goes through the check: without it one would get ahead in the row for ever. -/
theorem check_mem_of_isCycle (h : l.Shapes d) {members : List NodeId}
    (hcycle : IsCycle d.Joins members) : l.check ∈ members := by
  by_contra hcheck
  have hnone : ∀ position v, l.row.idxOf v = position → v ∉ members := by
    intro position
    induction position using Nat.strongRecOn with
    | ind position ih =>
        rintro v rfl hv
        obtain ⟨u, hu, hjoins⟩ := hcycle.exists_pred hv
        rcases h.joins_iff.mp hjoins with hends | ⟨rfl, _⟩
        · exact ih _ (h.idxOf_lt_of_mem_zip hends).1 u rfl hu
        · exact hcheck hu
  obtain ⟨v, hv⟩ := List.exists_mem_of_ne_nil members hcycle.ne_nil
  exact hnone _ v rfl hv

theorem not_joins_output (h : l.Shapes d) : ¬ d.Joins l.output v := by
  intro hjoins
  rcases h.joins_iff.mp hjoins with hends | ⟨hsame, _⟩
  · exact h.output_not_mem_row (List.of_mem_zip hends).1
  · exact h.check_ne_output hsame.symm

/-- Every cycle can be left by the check. -/
theorem isExit_of_isCycle (h : l.Shapes d) {members : List NodeId}
    (hcycle : IsCycle d.Joins members) : d.IsExit members l.check := by
  have hcheck := h.check_mem_of_isCycle hcycle
  obtain ⟨e, he, hsource, htarget⟩ : d.Joins l.check l.output :=
    h.joins_iff.mpr (Or.inr ⟨rfl, Or.inr rfl⟩)
  refine ⟨hcheck, h.isCondition_iff.mpr rfl, fun v _ hv => h.isCondition_iff.mp hv,
    e, he, hsource, ?_⟩
  -- on a cycle the output would lead back to the check, and it leads nowhere
  rw [htarget]
  intro houtput
  rcases (hcycle.reaches houtput hcheck).cases_head with hsame | ⟨v, hjoins, _⟩
  · exact h.check_ne_output hsame.symm
  · exact h.not_joins_output hjoins

theorem exists_plan (h : l.Shapes d) {c : Catalog} (haccepts : ∀ n ∈ d.nodes, c.Accepts n) :
    ∃ p, d.plan c false = .ok p := by
  have hvalid : (d.validate c).valid = true :=
    (d.validate_valid_iff c).mpr ⟨fun _ hcycle => ⟨_, h.isExit_of_isCycle hcycle⟩, haccepts⟩
  have hplan : d.plan c false = d.planWith (d.validate c) := by
    simp [Definition.plan, hvalid]
  rw [hplan]
  exact Definition.planWith_eq_ok_iff.mpr
    (Definition.exists_order_iff.mpr (Definition.controlled_of_valid hvalid))

/-! ### What the nodes lead to -/

variable {j : Job} {iteration : Nat} {output : Output}

/-- A node that is not the check leads to the next node, whatever its outputs are. -/
theorem leadsTo_of_ne_check (h : l.Shapes j.definition) (hu : u ≠ l.check) {next : Option NodeId}
    (hnext : ∀ t, (u, t) ∈ l.row.zip l.row.tail ↔ t ∈ next) :
    j.LeadsTo u iteration output next := by
  have hkind : j.definition.IsCondition u → output.verdict ≠ none :=
    fun hcondition => absurd (h.isCondition_iff.mp hcondition) hu
  have hplain : ∀ e ∈ j.definition.outgoing u, e.condition = none := by
    intro e he
    obtain ⟨hmem, rfl⟩ := Definition.mem_outgoing.mp he
    rcases mem_wires_iff.mp (h.mem_wires_of_mem hmem) with ⟨_, hnone⟩ | ⟨hsame, _⟩
    · exact hnone
    · exact absurd hsame hu
  have hall : (j.follow u output iteration).2 =
      .ok (((j.definition.outgoing u).filter fun _ => true).map Edge.target) := by
    rw [Job.follow_eq_followEdges hkind iteration]
    exact Job.followEdges_eq_ok fun e he => Or.inl ⟨hplain e he, rfl⟩
  refine ⟨_, hall, fun t => ?_⟩
  have hjoins : j.definition.Joins u t ↔ t ∈ next := by
    rw [h.joins_iff, hnext, or_iff_left fun hsame => hu hsame.1]
  rw [← hjoins, List.filter_true, List.mem_map]
  simp only [Definition.mem_outgoing, Leads, and_assoc]

theorem leadsTo_along (h : l.Shapes j.definition) (hends : (u, v) ∈ l.row.zip l.row.tail) :
    j.LeadsTo u iteration output (some v) := by
  refine h.leadsTo_of_ne_check (h.ne_check_of_mem_zip hends) fun t => ?_
  rw [Option.mem_some_iff]
  constructor
  · exact fun ht => (h.eq_of_mem_zip hends ht).symm
  · rintro rfl
    exact hends

theorem leadsTo_none (h : l.Shapes j.definition) : j.LeadsTo l.output iteration output none := by
  refine h.leadsTo_of_ne_check h.check_ne_output.symm fun t => iff_of_false ?_ nofun
  exact fun hends => h.output_not_mem_row (List.of_mem_zip hends).1

/-- Each edge that leaves the check has a condition, and leads to where the check is to lead on the
verdict that the condition expects. -/
theorem expects_of_mem_outgoing (h : l.Shapes d) {e : Edge} (he : e ∈ d.outgoing l.check) :
    ∃ passed expression, e.target = (if passed then l.output else l.first) ∧
      e.condition = some expression ∧ Guard.Expects expression.toList passed := by
  obtain ⟨hmem, hsource⟩ := Definition.mem_outgoing.mp he
  rcases mem_wires_iff.mp (h.mem_wires_of_mem hmem) with
    ⟨hends, _⟩ | ⟨_, ⟨htarget, hcondition⟩ | ⟨htarget, hcondition⟩⟩
  · exact absurd hsource (h.ne_check_of_mem_zip hends)
  · exact ⟨false, "false", htarget, hcondition, by decide +kernel⟩
  · exact ⟨true, "true", htarget, hcondition, by decide +kernel⟩

theorem exists_outgoing (h : l.Shapes d) (passed : Bool) : ∃ e ∈ d.outgoing l.check,
    e.target = (if passed then l.output else l.first) ∧ e.OpenOn passed := by
  have hwire : ∃ expression, Guard.Expects expression.toList passed ∧
      (l.check, if passed then l.output else l.first, some expression) ∈ l.wires := by
    cases passed with
    | false =>
        exact ⟨"false", by decide +kernel, mem_wires_iff.mpr (Or.inr ⟨rfl, Or.inl ⟨rfl, rfl⟩⟩)⟩
    | true =>
        exact ⟨"true", by decide +kernel, mem_wires_iff.mpr (Or.inr ⟨rfl, Or.inr ⟨rfl, rfl⟩⟩)⟩
  obtain ⟨expression, hexpects, hwire⟩ := hwire
  obtain ⟨e, he, hsource, htarget, hcondition⟩ := h.exists_edge_iff.mpr hwire
  exact ⟨e, Definition.mem_outgoing.mpr ⟨he, hsource⟩, htarget,
    (e.openOn_iff hcondition hexpects).mpr rfl⟩

/-- The check leads to the output if it passes, and else back to the first step. -/
theorem leadsTo_by_verdict (h : l.Shapes j.definition) (hj : j.evaluator = Guard.byVerdict)
    {passed : Bool} (hverdict : output.verdict = some passed) :
    j.LeadsTo l.check iteration output (some (if passed then l.output else l.first)) := by
  have hexpected : ∀ e ∈ j.definition.outgoing l.check, ∀ expression ∈ e.condition,
      ∃ expected, Guard.Expects expression.toList expected := by
    intro e he expression hexpression
    obtain ⟨expected, _, _, hcondition, hexpects⟩ := h.expects_of_mem_outgoing he
    obtain rfl := Option.some.inj (hcondition.symm.trans hexpression)
    exact ⟨expected, hexpects⟩
  have hopen : (j.follow l.check output iteration).2 = .ok
      (((j.definition.outgoing l.check).filter fun e => e.OpenOn passed).map Edge.target) := by
    rw [Job.follow_eq_followEdges (fun _ => by simp [hverdict]) iteration]
    exact Job.followEdges_of_verdict hj hverdict hexpected
  refine ⟨_, hopen, fun t => ?_⟩
  simp only [List.mem_map, List.mem_filter, decide_eq_true_eq, Option.mem_some_iff]
  constructor
  · rintro ⟨e, ⟨he, hpassed⟩, rfl⟩
    obtain ⟨expected, _, htarget, hcondition, hexpects⟩ := h.expects_of_mem_outgoing he
    rw [htarget, (e.openOn_iff hcondition hexpects).mp hpassed]
  · rintro rfl
    obtain ⟨e, he, htarget, hopen⟩ := h.exists_outgoing passed
    exact ⟨e, ⟨he, hopen⟩, htarget⟩

end Shapes
end Retry
end Workflow
