import Workflow.Proofs.Graph.Extension
import Workflow.Proofs.Graph.Survey
/-!
# The least order

An order is right if every edge that is not ignored leads forward in it.  There may be many; taking
the free node of the highest precedence each time gives the first of them all.  The entry point has
the highest precedence, so it comes first unless a node outside of all its loops leads to it.
-/
namespace Workflow

open Relation

universe u

/-! ### Taking the first free node -/

section Arrange

variable {V : Type u} [DecidableEq V] {predecessors : V → List V} {r : V → V → Prop}

/-- A list in which no node comes before its predecessors is no less than the one that is made by
taking the first free node each time: at the first place where they differ, the node taken stood
before the other one. -/
theorem arrange_least {remaining other : List V} (hsorted : remaining.Pairwise r)
    (hnodup : remaining.Nodup) (hperm : other.Perm remaining)
    (hforward : ∀ before v after, other = before ++ v :: after →
      ∀ u ∈ predecessors v, u ∈ remaining → u ∈ before) :
    other = (arrange predecessors remaining).1 ∨
      List.Lex r (arrange predecessors remaining).1 other := by
  fun_induction arrange predecessors remaining generalizing other with
  | case1 remaining hfind =>
      cases other with
      | nil => exact Or.inl rfl
      | cons v rest =>
          have hheld := List.find?_eq_none.mp hfind v (hperm.mem_iff.mp List.mem_cons_self)
          obtain ⟨u, hu, hremaining⟩ : ∃ u ∈ predecessors v, u ∈ remaining := by simpa using hheld
          cases hforward [] v rest rfl u hu hremaining
  | case2 remaining w hfind hw _ order stuck heq ih =>
      rw [heq] at ih
      cases other with
      | nil =>
          rw [List.nil_perm.mp hperm] at hw
          cases hw
      | cons v rest =>
          by_cases hvw : v = w
          · subst hvw
            have hlater : ∀ before x after, rest = before ++ x :: after →
                ∀ u ∈ predecessors x, u ∈ remaining.erase v → u ∈ before := by
              intro before x after hrest u hu hleft
              obtain ⟨hne, hremaining⟩ := hnodup.mem_erase_iff.mp hleft
              have hbefore := hforward (v :: before) x after (by rw [hrest]; rfl) u hu hremaining
              exact (List.mem_cons.mp hbefore).resolve_left hne
            rcases ih (hsorted.sublist List.erase_sublist) (hnodup.erase v)
              (List.cons_perm_iff_perm_erase.mp hperm).2 hlater with rfl | hlex
            · exact Or.inl rfl
            · exact Or.inr (List.Lex.cons hlex)
          · -- the first of the other list is free, so it does not stand before the one taken
            have hfree : (predecessors v).all (fun u => u ∉ remaining) = true := by
              simp only [List.all_eq_true, decide_eq_true_eq]
              intro u hu hremaining
              cases hforward [] v rest rfl u hu hremaining
            have hv : v ∈ remaining := hperm.mem_iff.mp List.mem_cons_self
            have hless := (eq_or_rel_of_find? hsorted hfind hv hfree).resolve_left hvw
            exact Or.inr (List.Lex.rel hless)

/-- The first of the remaining nodes is taken first just if none of them leads to it. -/
theorem head?_arrange_iff {v : V} {rest : List V} :
    (arrange predecessors (v :: rest)).1.head? = some v ↔
      ∀ u ∈ predecessors v, u ∉ v :: rest := by
  constructor
  · intro hhead u hu hremaining
    obtain ⟨after, hafter⟩ := List.head?_eq_some_iff.mp hhead
    have hbefore : u ∈ [] := mem_before_of_arrange hafter hu hremaining
    cases hbefore
  · intro hfree
    have hfind : (v :: rest).find? (fun v' => (predecessors v').all (fun p => p ∉ v :: rest)) =
        some v := by
      apply List.find?_cons_of_pos
      simpa only [List.all_eq_true, decide_eq_true_eq] using hfree
    rw [arrange]
    split
    · rename_i hnone
      rw [hnone] at hfind
      cases hfind
    · rename_i w hsome
      rw [hsome] at hfind
      exact hfind

end Arrange

namespace Definition

variable {d : Definition} {order : List NodeId}

/-! ### The order of precedence -/

/-- The first node takes precedence over the second: it is the entry point, or it is declared before
it, and the second is not the entry point. -/
def TakesPrecedence (d : Definition) (u v : NodeId) : Prop :=
  v ≠ d.entry ∧ (u = d.entry ∨ d.ids.idxOf u < d.ids.idxOf v)

theorem byPrecedence_pairwise (d : Definition) : d.byPrecedence.Pairwise d.TakesPrecedence := by
  have hother : ∀ v ∈ d.ids.erase d.entry, v ≠ d.entry := fun v hv =>
    (d.ids_nodup.mem_erase_iff.mp hv).1
  rw [byPrecedence, List.pairwise_cons]
  constructor
  · intro v hv
    exact ⟨hother v hv, Or.inl rfl⟩
  · refine ((pairwise_idxOf d.ids_nodup).sublist List.erase_sublist).imp_of_mem ?_
    intro u v _ hv hlt
    exact ⟨hother v hv, Or.inr hlt⟩

/-! ### Orders in which edges lead forward -/

/-- A list of all nodes in which every edge that is not ignored leads forward. -/
structure ForwardOrder (d : Definition) (order : List NodeId) : Prop where
  perm : order.Perm d.ids
  forward : ∀ e ∈ d.edges, ¬ d.Ignores e → [e.source, e.target].Sublist order

theorem ForwardOrder.mem_before (h : d.ForwardOrder order) {before after : List NodeId}
    {u v : NodeId} (hsplit : order = before ++ v :: after) (hleads : d.LeadsForward u v) :
    u ∈ before := by
  obtain ⟨e, he, rfl, rfl, hkept⟩ := hleads
  have hnodup : order.Nodup := h.perm.nodup_iff.mpr d.ids_nodup
  have hboth := h.forward e he hkept
  have hlt : order.idxOf e.source < order.idxOf e.target := by
    simpa using (pairwise_idxOf hnodup).sublist hboth
  have hsource : e.source ∈ before ++ e.target :: after := by
    rw [← hsplit]
    exact hboth.subset List.mem_cons_self
  rcases List.mem_append.mp hsource with hbefore | hlater
  · exact hbefore
  · rcases List.mem_cons.mp hlater with hsame | hlater
    · exact absurd hsame e.ends_differ
    · exact absurd (idxOf_lt_idxOf_of_split hnodup hsplit hlater) (Nat.lt_asymm hlt)

theorem forwardOrder_of_order (h : d.order = .ok order) : d.ForwardOrder order := by
  have hperm := orderAlong_perm h
  refine ⟨hperm, fun e he hkept => ?_⟩
  have hleads := leads_forwardEdges_iff.mpr ⟨e, he, rfl, rfl, hkept⟩
  obtain ⟨hsource, htarget⟩ := d.ends_declared e he
  obtain ⟨before, after, hsplit⟩ := List.append_of_mem (hperm.mem_iff.mpr htarget)
  have hbefore := mem_before_of_orderAlong h hsplit hleads hsource
  rw [hsplit, ← List.singleton_append (x := e.source)]
  exact (List.singleton_sublist.mpr hbefore).append (List.singleton_sublist.mpr List.mem_cons_self)

/-- No order in which the edges lead forward comes before that of the graph. -/
theorem order_least (h : d.order = .ok order) {other : List NodeId}
    (hother : d.ForwardOrder other) : other = order ∨ List.Lex d.TakesPrecedence order other := by
  have hforward : ∀ before v after, other = before ++ v :: after →
      ∀ u ∈ sourcesOf (d.forwardEdges d.loops) v, u ∈ d.byPrecedence → u ∈ before := by
    intro before v after hsplit u hu _
    exact hother.mem_before hsplit (leads_forwardEdges_iff.mp (mem_sourcesOf.mp hu))
  have hleast := arrange_least d.byPrecedence_pairwise
    (d.byPrecedence_perm.nodup_iff.mpr d.ids_nodup)
    (hother.perm.trans d.byPrecedence_perm.symm) hforward
  rwa [orderAlong_eq_ok_iff.mp h] at hleast

/-! ### Where the entry point stands -/

/-- The walk begins at the entry point. -/
theorem idxOf_entry (d : Definition) : d.preorder.idxOf d.entry = 0 := by
  have hwalk : DepthFirst d.successors (d.entry :: d.ids) [] d.preorder :=
    depthFirst_iff_eq_preorder.mpr rfl
  cases hwalk with
  | skip hseen _ => cases hseen
  | visit _ hbelow hrest =>
      obtain ⟨later, hpreorder⟩ := hbelow.seen_isPrefix.trans hrest.seen_isPrefix
      rw [← hpreorder]
      exact List.idxOf_cons_self

/-- When the graph can be ordered, an edge into the entry point is ignored just if the entry point
leads to its source: then the edge closes a loop that is told from the entry point. -/
theorem ignores_into_entry_iff (h : d.order = .ok order) {e : Edge} (he : e ∈ d.edges)
    (hentry : e.target = d.entry) : d.Ignores e ↔ ReflTransGen d.Joins d.entry e.source := by
  constructor
  · intro hignored
    obtain ⟨l, hl, hlast, hfirst⟩ := hignored.closes
    rw [hentry] at hfirst
    exact (isCycle_of_mem_loops hl).reaches (List.mem_of_head? hfirst) (List.mem_of_getLast? hlast)
  · intro hreach
    have hstep : d.Joins e.source d.entry := ⟨e, he, rfl, hentry⟩
    obtain ⟨rest, hcycle, hlast⟩ := exists_isCycle_closed_by hstep hreach
    have hmembers : d.entry :: rest ∈ d.cycles := by
      refine mem_cycles_iff_first.mpr ⟨hcycle, ?_⟩
      intro first hfirst v _
      obtain rfl := Option.some.inj hfirst
      rw [d.idxOf_entry]
      exact Nat.zero_le _
    rw [← isIgnored_iff]
    apply isIgnored_of_closedBy (exists_order_iff.mp ⟨order, h⟩)
      (mem_loops.mpr ⟨d.entry :: rest, hmembers, rfl⟩) hlast
    rw [hentry]
    rfl

/-- The entry point comes first just if the entry point leads to all nodes that lead to it. -/
theorem head?_order_iff (h : d.order = .ok order) :
    order.head? = some d.entry ↔
      ∀ e ∈ d.edges, e.target = d.entry → ReflTransGen d.Joins d.entry e.source := by
  have hhead : (arrange (sourcesOf (d.forwardEdges d.loops)) d.byPrecedence).1.head? =
      some d.entry ↔ ∀ u ∈ sourcesOf (d.forwardEdges d.loops) d.entry, u ∉ d.byPrecedence :=
    head?_arrange_iff
  rw [orderAlong_eq_ok_iff.mp h] at hhead
  rw [hhead]
  constructor
  · intro hfree e he hentry
    rw [← ignores_into_entry_iff h he hentry]
    by_contra hkept
    have hleads : d.LeadsForward e.source d.entry := ⟨e, he, rfl, hentry, hkept⟩
    exact hfree e.source (mem_sourcesOf.mpr (leads_forwardEdges_iff.mpr hleads))
      (d.byPrecedence_perm.mem_iff.mpr (d.ends_declared e he).1)
  · intro hreach u hu _
    obtain ⟨e, he, _, hentry, hkept⟩ := leads_forwardEdges_iff.mp (mem_sourcesOf.mp hu)
    exact hkept ((ignores_into_entry_iff h he hentry).mpr (hreach e he hentry))

/-- The order is the canonical one.  It is found by counting the edges that lead to each node, which
never breaks down, whatever the order of the components in which the loops are looked for.  It lists
every node once and lets every edge lead forward that is not ignored; of all such lists it is the
first, if nodes are compared by precedence; and the entry point comes first in it just if every edge
that leads to the entry point comes from a node that the entry point leads to. -/
theorem order_is_canonical (h : d.order = .ok order) :
    (∀ components, d.Components components → d.surveyedOrder components = some (.ok order)) ∧
    order.Nodup ∧ d.ForwardOrder order ∧
    (∀ other, d.ForwardOrder other → other = order ∨ List.Lex d.TakesPrecedence order other) ∧
    (order.head? = some d.entry ↔
      ∀ e ∈ d.edges, e.target = d.entry → ReflTransGen d.Joins d.entry e.source) := by
  have hforward := forwardOrder_of_order h
  refine ⟨fun components hcomponents => ?_, hforward.perm.nodup_iff.mpr d.ids_nodup, hforward,
    fun other hother => order_least h hother, head?_order_iff h⟩
  rw [hcomponents.surveyedOrder_eq, h]

/-- A plan is tested and made anew until it can be shipped with the notes; two edges lead from the
notes to the shipping. -/
def rework : Definition :=
  .plain "rework"
    [.plain "notes" "step", .plain "ship" "step", .plain "test" "condition", .plain "plan" "step"]
    [.plain "e1" "plan" "test", .plain "e2" "test" "plan", .plain "e3" "test" "ship",
      .plain "e4" "notes" "ship", .plain "e5" "notes" "ship"]
    "plan" 3

/-- The plan comes first although it is declared last, and the notes before the test, which could be
made as early. -/
theorem rework_order :
    rework.order = .ok ["plan", "notes", "test", "ship"] ∧
      ∀ other, rework.ForwardOrder other → other = ["plan", "notes", "test", "ship"] ∨
        List.Lex rework.TakesPrecedence ["plan", "notes", "test", "ship"] other := by
  have hloops : rework.loops = [⟨["plan", "test"], "e2", true, some "test"⟩] := by cbv
  have horder : rework.order = .ok ["plan", "notes", "test", "ship"] := by
    rw [order, hloops, orderAlong_eq_ok_iff]
    decide +kernel
  obtain ⟨_, _, _, hleast, _⟩ := order_is_canonical horder
  exact ⟨horder, hleast⟩

end Definition
end Workflow
