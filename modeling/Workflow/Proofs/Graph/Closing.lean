import Mathlib.Data.Set.Function
import Workflow.Proofs.Graph.LeastOrder
import Workflow.Proofs.Graph.LoopOrder
import Workflow.Proofs.Graph.Ranking
/-!
# Closing edges

An edge closes a circuit if it is the last one of a circuit that the search finds.  The search knows
nothing of how the nodes were ranked, only of the ranks; yet the closing edges are those that the
ranking finds to lead back to a node whose frame is open.  Both say that the target leads to the
source through nodes that were not met before it.  So every cycle has a closing edge, and a graph
without its closing edges has no cycle.
-/
namespace Workflow
namespace Definition

open Relation

variable {d : Definition} {components : List (List NodeId)} {position : Nat} {u v : NodeId}

/-! ### Ranks -/

theorem preorder_perm (d : Definition) : d.preorder.Perm d.ids :=
  (List.perm_ext_iff_of_nodup d.preorder_nodup d.ids_nodup).mpr fun _ => mem_preorder

/-- The ranks of the nodes are the numbers below the number of nodes. -/
theorem rank_bijOn (d : Definition) :
    Set.BijOn d.rank {v | v ∈ d.ids} (Set.Iio d.ids.length) := by
  rw [← d.preorder_perm.length_eq]
  refine ⟨fun v hv => ?_, fun u hu v _ hsame => ?_, fun k hk => ?_⟩
  · exact rank_lt_iff.mpr (mem_preorder.mpr hv)
  · exact rank_inj (mem_preorder.mpr hu) hsame
  · refine ⟨d.preorder[k], mem_preorder.mp (List.getElem_mem hk), ?_⟩
    exact d.preorder_nodup.idxOf_getElem k hk

/-! ### Which edges close a circuit -/

/-- The edge is the last one of a circuit. -/
def Closes (d : Definition) (components : List (List NodeId)) (position : Nat) : Prop :=
  ∃ c ∈ d.circuitsOver components, c.edges.getLast? = some position

/-- An edge closes a circuit if there is a cycle that ends where the edge begins and begins where it
ends. -/
theorem Components.closes_iff_cycle (h : d.Components components)
    (hleads : d.LeadsAt position u v) : d.Closes components position ↔
      ∃ members ∈ d.cycles, members.getLast? = some u ∧ members.head? = some v := by
  obtain ⟨e, he, rfl, rfl⟩ := hleads
  rw [Closes, h.exists_last_iff he]
  constructor
  · rintro ⟨l, hl, hclosed⟩
    obtain ⟨members, hmembers, rfl⟩ := mem_loops.mp hl
    rw [Loop.closedBy, Bool.and_eq_true, beq_iff_eq, beq_iff_eq] at hclosed
    exact ⟨members, hmembers, hclosed⟩
  · rintro ⟨members, hmembers, hlast, hfirst⟩
    refine ⟨d.loopOf members, mem_loops.mpr ⟨members, hmembers, rfl⟩, ?_⟩
    rw [Loop.closedBy, Bool.and_eq_true, beq_iff_eq, beq_iff_eq]
    exact ⟨hlast, hfirst⟩

/-- So it closes one if its target leads to its source through nodes not met before the target. -/
theorem Components.closes_iff (h : d.Components components) (hleads : d.LeadsAt position u v) :
    d.Closes components position ↔ ReflTransGen (d.JoinsLater v) v u := by
  rw [h.closes_iff_cycle hleads]
  constructor
  · rintro ⟨members, hmembers, hlast, hfirst⟩
    obtain ⟨hcycle, hleast⟩ := mem_cycles_iff_first.mp hmembers
    have hlater : IsCycle (d.JoinsLater v) members := hcycle.within (hleast v hfirst)
    exact hlater.reaches (List.mem_of_head? hfirst) (List.mem_of_getLast? hlast)
  · intro hback
    have hstep : d.JoinsLater v u v := ⟨hleads.joins, Nat.le_refl _⟩
    obtain ⟨rest, hcycle, hlast⟩ := exists_isCycle_closed_by hstep hback
    have hjoins : IsCycle d.Joins (v :: rest) := hcycle.imp fun _ _ hstep => hstep.1
    refine ⟨v :: rest, mem_cycles_iff_first.mpr ⟨hjoins, ?_⟩, hlast, rfl⟩
    intro first hfirst w hw
    obtain rfl := Option.some.inj hfirst
    exact rank_le_of_joinsLater (hcycle.reaches List.mem_cons_self hw)

/-- Every cycle, told from whichever member and along whichever edges, takes an edge that closes a
circuit. -/
theorem Components.exists_closes (h : d.Components components) {members : List NodeId}
    {positions : List Nat} (hcycle : IsCycle d.Joins members)
    (hfollows : d.Follows positions (members ++ members.head?.toList)) :
    ∃ position ∈ positions, d.Closes components position := by
  obtain ⟨listed, hlisted, hrotated⟩ := exists_mem_cycles hcycle
  have hlistedCycle := (mem_cycles_iff.mp hlisted).1
  obtain ⟨front, last, first, hlast, hfirst, _, hpath⟩ := exists_closing_step hlistedCycle
  obtain ⟨rest, hrest⟩ := (hlistedCycle.mem_steps_iff d.not_joins_self).mp
    (mem_zip_tail_iff.mpr ⟨front, [], hpath⟩)
  have hstep := (hcycle.mem_steps_iff d.not_joins_self).mpr ⟨rest, hrotated.trans hrest⟩
  obtain ⟨position, hposition, hleads⟩ := hfollows.exists_position hstep
  exact ⟨position, hposition, (h.closes_iff_cycle hleads).mpr ⟨listed, hlisted, hlast, hfirst⟩⟩

/-- Without the edges that close a circuit nothing leads back to itself. -/
theorem Components.acyclic_without_closing (h : d.Components components) (v : NodeId) :
    ¬ TransGen (fun a b => ∃ position, d.LeadsAt position a b ∧ ¬ d.Closes components position)
      v v := by
  intro hround
  obtain ⟨w, hstep, hback⟩ := TransGen.head'_iff.mp hround
  obtain ⟨members, hcycle, _⟩ := exists_isCycle_of_step hstep hback
  have hjoins : IsCycle d.Joins members := hcycle.imp fun _ _ ⟨_, hleads, _⟩ => hleads.joins
  obtain ⟨listed, hlisted, hrotated⟩ := exists_mem_cycles hjoins
  obtain ⟨last, first, hlast, hfirst, position, hleads, hopen⟩ :=
    (hcycle.rotate hrotated).closing_step
  exact hopen ((h.closes_iff_cycle hleads).mpr ⟨listed, hlisted, hlast, hfirst⟩)

/-! ### The tree of the walk -/

/-- The edge is one of the tree that the ranking makes: a step looks at it and finds a new node. -/
def Opens (d : Definition) (position : Nat) (u v : NodeId) : Prop :=
  ∃ n, (d.ranking n).looksAt? = some (u, position, v) ∧
    (d.ranking n).ranks.contains v = false

/-- Edges of the tree lead from the first node to the second; the empty path counts. -/
def IsAncestor (d : Definition) : NodeId → NodeId → Prop :=
  ReflTransGen fun a b => ∃ position, d.Opens position a b

/-- An edge of the tree leads to a node that is met later. -/
theorem Opens.leads (h : d.Opens position u v) :
    d.LeadsAt position u v ∧ d.rank u < d.rank v := by
  obtain ⟨n, hlooks, hnew⟩ := h
  obtain ⟨hnumbered, hnested⟩ := d.sound_ranking n
  obtain ⟨frame, rest, hstack, hnext⟩ := Ranking.looksAt?_eq_some_iff.mp hlooks
  rw [hstack] at hnested
  constructor
  · rw [← mem_departures, ← (hnested.passed _ List.mem_cons_self).own]
    exact List.mem_of_getElem? hnext
  · have hmet := hnested.open_met u List.mem_cons_self
    have hlater : ¬ d.rank v < (d.ranking n).met := by
      rw [← hnumbered.contains_iff, hnew]
      exact Bool.false_ne_true
    omega

/-- An ancestor leads to its descendants through nodes that are met after it. -/
theorem IsAncestor.reaches (h : d.IsAncestor v u) : ReflTransGen (d.JoinsLater v) v u := by
  induction h with
  | refl => exact .refl
  | tail _ hopens ih =>
      obtain ⟨position, hopens⟩ := hopens
      obtain ⟨hleads, hlt⟩ := hopens.leads
      exact ih.tail ⟨hleads.joins, Nat.le_of_lt (Nat.lt_of_le_of_lt (rank_le_of_joinsLater ih) hlt)⟩

/-- Along the trail each node was opened from the one below it. -/
theorem trail_isChain (d : Definition) (n : Nat) :
    (d.ranking n).trail.IsChain fun a b => ∃ position, d.Opens position b a := by
  induction n with
  | zero => exact List.isChain_nil
  | succ n ih =>
      have hopens : ∀ u position v, (d.ranking n).looksAt? = some (u, position, v) →
          (d.ranking n).ranks.contains v = false → d.Opens position u v :=
        fun _ _ _ hlooks hnew => ⟨n, hlooks, hnew⟩
      have hstep := (d.ranking n).takes_step d
      rw [ranking]
      generalize (d.ranking n).step d = r' at hstep ⊢
      generalize d.ranking n = r at hstep ih hopens
      unfold Ranking.trail at ih ⊢
      cases hstep with
      | done | pass => exact ih
      | setOut hstack => simp [Ranking.meet, hstack]
      | leave hstack =>
          rw [hstack] at ih
          exact ih.tail
      | look hstack =>
          rw [hstack] at ih
          exact ih
      | enter hstack hnext hnew =>
          rw [hstack] at ih
          have hlooks := Ranking.looksAt?_eq_some_iff.mpr ⟨_, _, hstack, hnext⟩
          exact List.isChain_cons_cons.mpr ⟨⟨_, hopens _ _ _ hlooks hnew⟩, ih⟩

/-- While the edges of a node are looked at, the open frames are those of its ancestors. -/
theorem mem_trail_iff_isAncestor {n : Nat} (hhead : (d.ranking n).trail.head? = some u)
    (hv : v ∈ d.ids) : v ∈ (d.ranking n).trail ↔ d.IsAncestor v u := by
  constructor
  · intro hmem
    obtain ⟨below, htrail⟩ := List.head?_eq_some_iff.mp hhead
    have hchain := d.trail_isChain n
    rw [htrail] at hchain hmem
    exact (reflTransGen_of_isChain_cons hchain hmem).swap
  · intro hancestor
    exact (d.sound_ranking n).nested.mem_trail_of_reaches (List.mem_of_head? hhead)
      (mem_preorder.mpr hv) hancestor.reaches

/-- And an edge of the node leads to one of them if it closes a circuit. -/
theorem Components.closes_iff_mem_trail (h : d.Components components) {n : Nat}
    (hhead : (d.ranking n).trail.head? = some u) (hleads : d.LeadsAt position u v) :
    d.Closes components position ↔ v ∈ (d.ranking n).trail := by
  have hv : v ∈ d.ids := target_declared hleads.joins
  rw [h.closes_iff hleads]
  constructor
  · intro hback
    exact (d.sound_ranking n).nested.mem_trail_of_reaches (List.mem_of_head? hhead)
      (mem_preorder.mpr hv) hback
  · intro hmem
    exact ((mem_trail_iff_isAncestor hhead hv).mp hmem).reaches

/-- The ranking comes to an end, with every node ranked where the walk meets it: the ranks are the
numbers below the number of nodes, each given once, and the entry point has the first.  It looks at
every edge; and the edge closes a circuit if, while the edges of its source are looked at, the frame
of its target is open, which is to say that the target is an ancestor of the source.  So every cycle
takes a closing edge, none of them is an edge of the tree, and without them there is no cycle. -/
theorem closing_edges_lead_back (h : d.Components components) :
    (∃ n, (d.ranking n).isOver = true) ∧
    (∀ n, (d.ranking n).isOver = true → ∀ v,
      (d.ranking n).ranks.get? v = if v ∈ d.ids then some (d.rank v) else none) ∧
    Set.BijOn d.rank {v | v ∈ d.ids} (Set.Iio d.ids.length) ∧ d.rank d.entry = 0 ∧
    (∀ position u v, d.LeadsAt position u v →
      (∃ n, (d.ranking n).looksAt? = some (u, position, v)) ∧
      ∀ n, (d.ranking n).trail.head? = some u →
        (d.Closes components position ↔ v ∈ (d.ranking n).trail) ∧
        (v ∈ (d.ranking n).trail ↔ d.IsAncestor v u)) ∧
    (∀ members positions, IsCycle d.Joins members →
      d.Follows positions (members ++ members.head?.toList) →
        ∃ position ∈ positions, d.Closes components position) ∧
    (∀ position u v, d.Opens position u v → ¬ d.Closes components position) ∧
    ∀ v, ¬ TransGen
      (fun a b => ∃ position, d.LeadsAt position a b ∧ ¬ d.Closes components position) v v := by
  refine ⟨d.exists_isOver 0, fun n hover v => ranks_of_isOver hover v, d.rank_bijOn, d.idxOf_entry,
    fun position u v hleads => ⟨exists_looksAt hleads, fun n hhead => ⟨?_, ?_⟩⟩,
    fun members positions hcycle hfollows => h.exists_closes hcycle hfollows, ?_,
    h.acyclic_without_closing⟩
  · exact h.closes_iff_mem_trail hhead hleads
  · exact mem_trail_iff_isAncestor hhead (target_declared hleads.joins)
  · intro position u v hopens hcloses
    obtain ⟨hleads, hlt⟩ := hopens.leads
    have hle := rank_le_of_joinsLater ((h.closes_iff hleads).mp hcloses)
    omega

/-- After two steps the frames of `b` and `a` are open, so both edges from `b` back to `a` close a
circuit, and the one that opened `b` does not. -/
theorem twinLoops_closing_edges :
    twinLoops.Components [["d"], ["c", "b", "a"]] ∧
    (twinLoops.ranking 2).trail = ["b", "a"] ∧
    twinLoops.Closes [["d"], ["c", "b", "a"]] 1 ∧ twinLoops.Closes [["d"], ["c", "b", "a"]] 2 ∧
    twinLoops.IsAncestor "a" "b" ∧ ¬ twinLoops.Closes [["d"], ["c", "b", "a"]] 0 := by
  have hcomponents : twinLoops.Components [["d"], ["c", "b", "a"]] :=
    Components.of_perm (by decide) (of_decide_eq_true (by cbv))
  obtain ⟨_, _, _, _, hedges, _, htree, _⟩ := closing_edges_lead_back hcomponents
  have htrail : (twinLoops.ranking 2).trail = ["b", "a"] := by decide +kernel
  have hhead : (twinLoops.ranking 2).trail.head? = some "b" := by rw [htrail]; rfl
  have ha : "a" ∈ (twinLoops.ranking 2).trail := by rw [htrail]; decide
  have hfirst : twinLoops.LeadsAt 1 "b" "a" := ⟨_, rfl, rfl, rfl⟩
  have hsecond : twinLoops.LeadsAt 2 "b" "a" := ⟨_, rfl, rfl, rfl⟩
  obtain ⟨hcloses, hancestor⟩ := (hedges 1 "b" "a" hfirst).2 2 hhead
  obtain ⟨hcloses', _⟩ := (hedges 2 "b" "a" hsecond).2 2 hhead
  exact ⟨hcomponents, htrail, hcloses.mpr ha, hcloses'.mpr ha, hancestor.mp ha,
    htree 0 "a" "b" ⟨1, by decide +kernel, by decide +kernel⟩⟩

end Definition
end Workflow
