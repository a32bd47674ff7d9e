import Workflow.Graph.Order
import Workflow.Proofs.Graph.Loops
/-!
# When a graph can be ordered

Taking nodes without remaining predecessors succeeds exactly when no cycle is left, and cutting the
ignorable back edges leaves no cycle exactly when every loop is controlled.
-/
namespace Workflow

universe u

variable {V : Type u} [DecidableEq V] {predecessors : V → List V}

/-! ### Taking nodes one by one -/

theorem arrange_perm (predecessors : V → List V) (remaining : List V) :
    ((arrange predecessors remaining).1 ++ (arrange predecessors remaining).2).Perm
      remaining := by
  fun_induction arrange predecessors remaining with
  | case1 remaining _ => exact List.Perm.refl _
  | case2 remaining v hfind hv _ order stuck heq ih =>
      rw [heq] at ih
      exact (List.Perm.cons v ih).trans (List.perm_cons_erase hv).symm

/-- What is stuck is held up by something stuck. -/
theorem exists_pred_of_mem_stuck {remaining : List V} {v : V}
    (hv : v ∈ (arrange predecessors remaining).2) :
    ∃ u ∈ predecessors v, u ∈ (arrange predecessors remaining).2 := by
  fun_induction arrange predecessors remaining with
  | case1 remaining hfind =>
      have hnone := List.find?_eq_none.mp hfind v hv
      simpa using hnone
  | case2 remaining w hfind hw _ order stuck heq ih =>
      rw [heq] at ih
      exact ih hv

/-- A node is taken only after all its predecessors among the given nodes. -/
theorem mem_before_of_arrange {remaining before after : List V} {v u : V}
    (hsplit : (arrange predecessors remaining).1 = before ++ v :: after) (hu : u ∈ predecessors v)
    (hremaining : u ∈ remaining) : u ∈ before := by
  fun_induction arrange predecessors remaining generalizing before with
  | case1 remaining hfind => simp at hsplit
  | case2 remaining w hfind hw _ order stuck heq ih =>
      rw [heq] at ih
      cases before with
      | nil =>
          obtain ⟨rfl, rfl⟩ := List.cons.inj hsplit
          have hfree := List.find?_some hfind
          simp only [List.all_eq_true, decide_eq_true_eq] at hfree
          exact absurd hremaining (hfree u hu)
      | cons x before =>
          obtain ⟨rfl, rfl⟩ := List.cons.inj hsplit
          by_cases hne : u = w
          · subst hne
            exact List.mem_cons_self
          · exact List.mem_cons_of_mem w (ih rfl ((List.mem_erase_of_ne hne).mpr hremaining))

/-- Nodes that hold each other up are never taken. -/
theorem mem_stuck_of_forall_pred {remaining held : List V} (hheld : ∀ v ∈ held, v ∈ remaining)
    (hpred : ∀ v ∈ held, ∃ u ∈ predecessors v, u ∈ held) :
    ∀ v ∈ held, v ∈ (arrange predecessors remaining).2 := by
  fun_induction arrange predecessors remaining with
  | case1 remaining hfind => exact hheld
  | case2 remaining w hfind hw _ order stuck heq ih =>
      rw [heq] at ih
      have hfree := List.find?_some hfind
      simp only [List.all_eq_true, decide_eq_true_eq] at hfree
      have hnot : w ∉ held := by
        intro hmem
        obtain ⟨u, hu, huheld⟩ := hpred w hmem
        exact hfree u hu (hheld u huheld)
      apply ih
      intro v hv
      have hne : v ≠ w := by
        rintro rfl
        exact hnot hv
      exact (List.mem_erase_of_ne hne).mpr (hheld v hv)

namespace Definition

variable {d : Definition}

theorem mem_sourcesOf {edges : List Edge} {u v : NodeId} :
    u ∈ sourcesOf edges v ↔ Leads edges u v := by
  simp only [sourcesOf, List.mem_eraseDups, List.mem_map, List.mem_filter, beq_iff_eq, Leads,
    and_assoc]
  constructor
  · rintro ⟨e, he, htarget, hsource⟩
    exact ⟨e, he, hsource, htarget⟩
  · rintro ⟨e, he, hsource, htarget⟩
    exact ⟨e, he, htarget, hsource⟩

theorem byPrecedence_perm (d : Definition) : d.byPrecedence.Perm d.ids :=
  (List.perm_cons_erase d.entry_declared).symm

theorem orderAlong_eq_ok_iff {edges : List Edge} {order : List NodeId} :
    d.orderAlong edges = .ok order ↔ arrange (sourcesOf edges) d.byPrecedence = (order, []) := by
  unfold orderAlong
  split
  · rename_i order' harrange
    rw [harrange, Except.ok.injEq, Prod.mk.injEq]
    simp
  · rename_i order' stuck hne harrange
    rw [harrange]
    refine iff_of_false nofun ?_
    intro h
    exact hne (Prod.mk.inj h).2

/-- An order along some edges lists every node once, and no node before those that lead to it. -/
theorem orderAlong_perm {edges : List Edge} {order : List NodeId}
    (h : d.orderAlong edges = .ok order) : order.Perm d.ids := by
  have hperm := arrange_perm (sourcesOf edges) d.byPrecedence
  rw [orderAlong_eq_ok_iff.mp h, List.append_nil] at hperm
  exact hperm.trans d.byPrecedence_perm

theorem mem_before_of_orderAlong {edges : List Edge} {order before after : List NodeId}
    {u v : NodeId} (h : d.orderAlong edges = .ok order) (hsplit : order = before ++ v :: after)
    (hleads : Leads edges u v) (hu : u ∈ d.ids) : u ∈ before := by
  have htaken : (arrange (sourcesOf edges) d.byPrecedence).1 = before ++ v :: after := by
    rw [orderAlong_eq_ok_iff.mp h]
    exact hsplit
  exact mem_before_of_arrange htaken (mem_sourcesOf.mpr hleads)
    (d.byPrecedence_perm.mem_iff.mpr hu)

/-- There is an order along some of the edges exactly when these close no cycle. -/
theorem exists_orderAlong_iff {edges : List Edge} (hedges : ∀ e ∈ edges, e ∈ d.edges) :
    (∃ order, d.orderAlong edges = .ok order) ↔ ∀ members, ¬ IsCycle (Leads edges) members := by
  constructor
  · rintro ⟨order, horder⟩ members hcycle
    have hstuck : ∀ v ∈ members, v ∈ (arrange (sourcesOf edges) d.byPrecedence).2 := by
      apply mem_stuck_of_forall_pred
      · intro v hv
        obtain ⟨u, _, hstep⟩ := hcycle.exists_pred hv
        exact d.byPrecedence_perm.mem_iff.mpr (target_declared (hstep.mono hedges))
      · intro v hv
        obtain ⟨u, hu, hstep⟩ := hcycle.exists_pred hv
        exact ⟨u, mem_sourcesOf.mpr hstep, hu⟩
    obtain ⟨v, hv⟩ := List.exists_mem_of_ne_nil members hcycle.ne_nil
    have hmem := hstuck v hv
    rw [orderAlong_eq_ok_iff.mp horder] at hmem
    cases hmem
  · intro hacyclic
    have hstuck : (arrange (sourcesOf edges) d.byPrecedence).2 = [] := by
      by_contra hne
      have hpred : ∀ v ∈ (arrange (sourcesOf edges) d.byPrecedence).2,
          ∃ u ∈ (arrange (sourcesOf edges) d.byPrecedence).2, Leads edges u v := by
        intro v hv
        obtain ⟨u, hu, hmem⟩ := exists_pred_of_mem_stuck hv
        exact ⟨u, hmem, mem_sourcesOf.mp hu⟩
      obtain ⟨members, hcycle, _⟩ := exists_isCycle_of_forall_pred hne hpred
      exact hacyclic members hcycle
    exact ⟨(arrange (sourcesOf edges) d.byPrecedence).1,
      orderAlong_eq_ok_iff.mpr (Prod.ext rfl hstuck)⟩

/-! ### Cutting loops at their back edges -/

theorem mem_forwardEdges {e : Edge} :
    e ∈ d.forwardEdges d.loops ↔ e ∈ d.edges ∧ isIgnored d.loops e = false := by
  simp only [forwardEdges, List.mem_filter, Bool.not_eq_eq_eq_not, Bool.not_true]

theorem mem_edges_of_mem_forwardEdges {e : Edge} (he : e ∈ d.forwardEdges d.loops) :
    e ∈ d.edges :=
  (mem_forwardEdges.mp he).1

theorem isCycle_of_mem_loops {l : Loop} (hl : l ∈ d.loops) : IsCycle d.Joins l.nodes := by
  obtain ⟨members, hmembers, rfl⟩ := mem_loops.mp hl
  exact (mem_cycles_iff.mp hmembers).1

/-- No edge of a loop that is not controlled is cut, whatever other loops it closes. -/
theorem forward_cycle_of_uncontrolled {l : Loop} (hl : l ∈ d.loops)
    (huncontrolled : l.controlled = false) :
    IsCycle (Leads (d.forwardEdges d.loops)) l.nodes := by
  have hcycle := isCycle_of_mem_loops hl
  refine ⟨hcycle.ne_nil, hcycle.nodup, isChain_iff_forall_mem_zip_tail.mpr ?_⟩
  intro p hp
  obtain ⟨e, he, hsource, htarget⟩ := isChain_iff_forall_mem_zip_tail.mp hcycle.closed p hp
  refine ⟨e, mem_forwardEdges.mpr ⟨he, ?_⟩, hsource, htarget⟩
  have hpasses : l.passes e = true := by
    rw [Loop.passes, hsource, htarget]
    exact List.contains_iff_mem.mpr hp
  have hkept : d.loops.all (fun l => l.controlled || !l.passes e) = false := by
    rw [List.all_eq_false]
    exact ⟨l, hl, by simp [huncontrolled, hpasses]⟩
  rw [isIgnored, hkept, Bool.and_false]

/-- When every loop is controlled, all the edges that close loops are cut. -/
theorem isIgnored_of_closedBy (hcontrolled : ∀ l ∈ d.loops, l.controlled = true) {l : Loop}
    (hl : l ∈ d.loops) {e : Edge} (hlast : l.nodes.getLast? = some e.source)
    (hfirst : l.nodes.head? = some e.target) : isIgnored d.loops e = true := by
  rw [isIgnored, Bool.and_eq_true]
  constructor
  · exact List.any_eq_true.mpr ⟨l, hl, by simp [Loop.closedBy, hlast, hfirst]⟩
  · exact List.all_eq_true.mpr fun l' hl' => by simp [hcontrolled l' hl']

/-- The forward edges close a cycle exactly when some loop is not controlled. -/
theorem exists_forward_cycle_iff :
    (∃ members, IsCycle (Leads (d.forwardEdges d.loops)) members) ↔
      ∃ l ∈ d.loops, l.controlled = false := by
  constructor
  · rintro ⟨members, hcycle⟩
    by_contra hnone
    have hcontrolled : ∀ l ∈ d.loops, l.controlled = true := by
      intro l hl
      by_contra h
      exact hnone ⟨l, hl, Bool.eq_false_iff.mpr h⟩
    have hjoins : IsCycle d.Joins members :=
      hcycle.imp fun u v h => h.mono fun e he => mem_edges_of_mem_forwardEdges he
    obtain ⟨listed, hlisted, hrotated⟩ := exists_mem_cycles hjoins
    have hl : d.loopOf listed ∈ d.loops := mem_loops.mpr ⟨listed, hlisted, rfl⟩
    obtain ⟨last, first, hlast, hfirst, e, he, rfl, rfl⟩ :=
      (hcycle.rotate hrotated).closing_step
    have hignored := isIgnored_of_closedBy hcontrolled hl hlast hfirst
    rw [(mem_forwardEdges.mp he).2] at hignored
    cases hignored
  · rintro ⟨l, hl, huncontrolled⟩
    exact ⟨l.nodes, forward_cycle_of_uncontrolled hl huncontrolled⟩

/-- The graph can be ordered exactly when every loop is controlled. -/
theorem exists_order_iff :
    (∃ order, d.order = .ok order) ↔ ∀ l ∈ d.loops, l.controlled = true := by
  rw [order, exists_orderAlong_iff fun e he => mem_edges_of_mem_forwardEdges he]
  rw [← not_exists, exists_forward_cycle_iff]
  simp

/-- Without a cycle there is nothing to cut open, so every edge leads forward. -/
theorem forwardEdges_of_acyclic (hacyclic : ∀ members, ¬ IsCycle d.Joins members) :
    d.forwardEdges d.loops = d.edges := by
  have hloops : d.loops = [] := by
    apply List.eq_nil_iff_forall_not_mem.mpr
    intro l hl
    exact hacyclic l.nodes (isCycle_of_mem_loops hl)
  rw [hloops, forwardEdges, List.filter_eq_self]
  intro e _
  simp [isIgnored]

end Definition
end Workflow
