import Workflow.Proofs.Definition
import Workflow.Proofs.Graph.Cycle
import Workflow.Proofs.Graph.Walk
/-!
# Every loop is found, and found once

The loops of a definition are its simple cycles, each told once and from the member that the
depth-first walk meets first.  The search for the ways back to a node looks only at nodes that lie
on a cycle with it and that the walk meets later; neither restriction loses a cycle.
-/
namespace Workflow
namespace Definition

variable {d : Definition}

/-! ### The walk behind the loops -/

theorem preorder_nodup (d : Definition) : d.preorder.Nodup :=
  walk_nodup List.nodup_nil

/-- The preorder is the order in which a depth-first visit meets the nodes, the entry point first
and then the others as declared. -/
theorem depthFirst_iff_eq_preorder {met : List NodeId} :
    DepthFirst d.successors (d.entry :: d.ids) [] met ↔ met = d.preorder := by
  suffices hwalk : DepthFirst d.successors (d.entry :: d.ids) [] d.preorder by
    constructor
    · intro hmet
      exact hmet.unique hwalk
    · rintro rfl
      exact hwalk
  apply depthFirst_walk
  · intro u v hv
    exact target_declared (mem_successors.mp hv)
  · intro v hv
    rcases List.mem_cons.mp hv with rfl | hv
    · exact d.entry_declared
    · exact hv

theorem mem_preorder {v : NodeId} : v ∈ d.preorder ↔ v ∈ d.ids := by
  constructor
  · intro hv
    rcases reaches_of_mem_walk hv with hnone | ⟨hdeclared, _⟩
    · cases hnone
    · exact hdeclared
  · intro hv
    exact mem_walk_of_mem_stack (List.mem_cons_of_mem _ hv) hv

theorem declared_of_reaches {u v : NodeId} (hu : u ∈ d.ids)
    (h : Relation.ReflTransGen d.Joins u v) : v ∈ d.ids := by
  cases h with
  | refl => exact hu
  | tail _ hlast => exact target_declared hlast

theorem mem_reachable {u v : NodeId} (hu : u ∈ d.ids) :
    v ∈ d.reachable u ↔ Relation.ReflTransGen d.Joins u v := by
  have hdeclared : ∀ a, ∀ b ∈ d.successors a, b ∈ d.ids :=
    fun a b hb => target_declared (mem_successors.mp hb)
  rw [reachable, mem_walk_iff hdeclared (by simpa using hu)]
  simp only [List.mem_singleton, exists_eq_left, Reaches, mem_successors]

theorem mem_coreachable {u v : NodeId} (hv : v ∈ d.ids) :
    u ∈ d.coreachable v ↔ Relation.ReflTransGen d.Joins u v := by
  have hdeclared : ∀ a, ∀ b ∈ d.predecessors a, b ∈ d.ids :=
    fun a b hb => source_declared (mem_predecessors.mp hb)
  rw [coreachable, mem_walk_iff hdeclared (by simpa using hv)]
  simp only [List.mem_singleton, exists_eq_left, Reaches, mem_predecessors]
  exact Relation.reflTransGen_swap (r := d.Joins)

/-! ### Ways back to a node -/

/-- The ways back are exactly the paths that pass through free nodes, none twice. -/
theorem mem_waysBack {start last : NodeId} {free way : List NodeId} (hfree : free.Nodup)
    (hstart : start ∉ free) :
    way ∈ d.waysBack start last free ↔
      way.Nodup ∧ (∀ v ∈ way, v ∈ free) ∧ List.IsChain d.Joins (last :: way ++ [start]) := by
  induction last, free using waysBack.induct generalizing way with
  | case1 last free ih =>
      rw [waysBack, List.mem_flatMap]
      simp only [mem_successors]
      constructor
      · rintro ⟨next, hstep, hway⟩
        split at hway
        · rename_i heq
          subst heq
          obtain rfl := List.mem_singleton.mp hway
          simpa using hstep
        · split at hway
          · rename_i hnext
            obtain ⟨rest, hrest, rfl⟩ := List.mem_map.mp hway
            have hrest' := (ih next hnext (hfree.erase next)
              (fun h => hstart (List.mem_of_mem_erase h))).mp hrest
            obtain ⟨hnodup, hsub, hchain⟩ := hrest'
            refine ⟨?_, ?_, List.isChain_cons_cons.mpr ⟨hstep, hchain⟩⟩
            · refine List.nodup_cons.mpr ⟨fun hmem => ?_, hnodup⟩
              exact (hfree.mem_erase_iff.mp (hsub next hmem)).1 rfl
            · intro v hv
              rcases List.mem_cons.mp hv with rfl | hv
              · exact hnext
              · exact List.mem_of_mem_erase (hsub v hv)
          · cases hway
      · rintro ⟨hnodup, hsub, hchain⟩
        cases way with
        | nil =>
            refine ⟨start, by simpa using hchain, ?_⟩
            rw [if_pos rfl]
            exact List.mem_singleton.mpr rfl
        | cons next rest =>
            obtain ⟨hstep, hchain⟩ := List.isChain_cons_cons.mp hchain
            obtain ⟨hnew, hnodup⟩ := List.nodup_cons.mp hnodup
            have hnext : next ∈ free := hsub next List.mem_cons_self
            have hne : next ≠ start := fun heq => hstart (heq ▸ hnext)
            refine ⟨next, hstep, ?_⟩
            rw [if_neg hne, dif_pos hnext]
            refine List.mem_map.mpr ⟨rest, ?_, rfl⟩
            refine (ih next hnext (hfree.erase next)
              (fun h => hstart (List.mem_of_mem_erase h))).mpr ⟨hnodup, ?_, hchain⟩
            intro v hv
            refine hfree.mem_erase_iff.mpr ⟨?_, hsub v (List.mem_cons_of_mem next hv)⟩
            rintro rfl
            exact hnew hv

/-- The ways found through a successor start with it, the empty way standing for a step straight
back to the start. -/
theorem headD_of_mem_branch {start next : NodeId} {free way : List NodeId}
    {ways : next ∈ free → List (List NodeId)}
    (hway : way ∈ if next = start then [[]]
      else if h : next ∈ free then (ways h).map (next :: ·) else []) :
    way.headD start = next := by
  split at hway
  · rename_i heq
    obtain rfl := List.mem_singleton.mp hway
    exact heq.symm
  · split at hway
    · obtain ⟨rest, _, rfl⟩ := List.mem_map.mp hway
      rfl
    · cases hway

/-- No way back is found twice, since different successors start different ways. -/
theorem waysBack_nodup (d : Definition) (start last : NodeId) (free : List NodeId) :
    (d.waysBack start last free).Nodup := by
  induction last, free using waysBack.induct with
  | case1 last free ih =>
      rw [waysBack, List.nodup_flatMap]
      constructor
      · intro next _
        split
        · exact List.nodup_singleton []
        · split
          · rename_i hnext
            exact (ih next hnext).map (List.cons_injective)
          · exact List.nodup_nil
      · apply (nodup_eraseDups _).imp
        intro a b hne
        rw [Function.onFun, List.disjoint_left]
        intro way ha hb
        exact hne ((headD_of_mem_branch ha).symm.trans (headD_of_mem_branch hb))

/-! ### Cycles from their first member -/

theorem mem_cyclesFrom {visits members : List NodeId} :
    members ∈ d.cyclesFrom visits ↔
      ∃ before start later way, visits = before ++ start :: later ∧ members = start :: way ∧
        way ∈ d.waysBack start start (d.loopScope start later) := by
  induction visits with
  | nil => simp [cyclesFrom]
  | cons v visits ih =>
      rw [cyclesFrom, List.mem_append, List.mem_map, ih]
      constructor
      · rintro (⟨way, hway, rfl⟩ | ⟨before, start, later, way, rfl, rfl, hway⟩)
        · exact ⟨[], v, visits, way, rfl, rfl, hway⟩
        · exact ⟨v :: before, start, later, way, rfl, rfl, hway⟩
      · rintro ⟨before, start, later, way, hvisits, rfl, hway⟩
        cases before with
        | nil =>
            obtain ⟨rfl, rfl⟩ := List.cons.inj hvisits
            exact Or.inl ⟨way, hway, rfl⟩
        | cons u before =>
            obtain ⟨rfl, rfl⟩ := List.cons.inj hvisits
            exact Or.inr ⟨before, start, later, way, rfl, rfl, hway⟩

theorem cyclesFrom_nodup {visits : List NodeId} (hvisits : visits.Nodup) :
    (d.cyclesFrom visits).Nodup := by
  induction visits with
  | nil => exact List.nodup_nil
  | cons v visits ih =>
      obtain ⟨hnew, hnodup⟩ := List.nodup_cons.mp hvisits
      rw [cyclesFrom, List.nodup_append']
      refine ⟨(d.waysBack_nodup _ _ _).map List.cons_injective, ih hnodup, ?_⟩
      rw [List.disjoint_left]
      intro members hfirst hlater
      obtain ⟨way, _, rfl⟩ := List.mem_map.mp hfirst
      obtain ⟨before, start, later, way', rfl, heq, _⟩ := mem_cyclesFrom.mp hlater
      obtain ⟨rfl, _⟩ := List.cons.inj heq
      exact hnew (List.mem_append_right before List.mem_cons_self)

/-- The nodes of a cycle all lie in the scope of its first member, if the walk meets them later. -/
theorem mem_loopScope_of_isCycle {start : NodeId} {way later : List NodeId}
    (hcycle : IsCycle d.Joins (start :: way)) (hlater : ∀ v ∈ way, v ∈ later) :
    ∀ v ∈ way, v ∈ d.loopScope start later := by
  intro v hv
  have hmember : v ∈ start :: way := List.mem_cons_of_mem start hv
  have hstart : start ∈ d.ids := by
    obtain ⟨u, _, hstep⟩ := hcycle.exists_pred (List.mem_cons_self (a := start))
    exact target_declared hstep
  have hforth : v ∈ d.reachable start :=
    (mem_reachable hstart).mpr (hcycle.reaches List.mem_cons_self hmember)
  have hback : v ∈ d.coreachable start :=
    (mem_coreachable hstart).mpr (hcycle.reaches hmember List.mem_cons_self)
  simp only [loopScope, List.mem_filter, List.contains_iff_mem, Bool.and_eq_true]
  exact ⟨hlater v hv, hforth, hback⟩

/-- The cycles listed are exactly the simple cycles that start at the member which the walk meets
first. -/
theorem mem_cycles_iff {members : List NodeId} :
    members ∈ d.cycles ↔
      IsCycle d.Joins members ∧ ∃ before start later way,
        d.preorder = before ++ start :: later ∧ members = start :: way ∧ ∀ v ∈ way, v ∈ later := by
  have hpreorder := d.preorder_nodup
  rw [cycles, mem_cyclesFrom]
  constructor
  · rintro ⟨before, start, later, way, hvisits, rfl, hway⟩
    rw [hvisits] at hpreorder
    have hsuffix : (start :: later).Nodup := (List.nodup_append'.mp hpreorder).2.1
    obtain ⟨hnew, hlater⟩ := List.nodup_cons.mp hsuffix
    have hscope : start ∉ d.loopScope start later := fun h => hnew (List.mem_of_mem_filter h)
    obtain ⟨hnodup, hsub, hchain⟩ := (mem_waysBack (hlater.filter _) hscope).mp hway
    have hmember : ∀ v ∈ way, v ∈ later := fun v hv => List.mem_of_mem_filter (hsub v hv)
    refine ⟨isCycle_cons_iff.mpr ⟨List.nodup_cons.mpr ⟨?_, hnodup⟩, hchain⟩, ?_⟩
    · exact fun hmem => hnew (hmember start hmem)
    · exact ⟨before, start, later, way, hvisits, rfl, hmember⟩
  · rintro ⟨hcycle, before, start, later, way, hvisits, rfl, hlater⟩
    rw [hvisits] at hpreorder
    have hsuffix : (start :: later).Nodup := (List.nodup_append'.mp hpreorder).2.1
    obtain ⟨hnew, hnodup⟩ := List.nodup_cons.mp hsuffix
    have hscope : start ∉ d.loopScope start later := fun h => hnew (List.mem_of_mem_filter h)
    refine ⟨before, start, later, way, hvisits, rfl, ?_⟩
    obtain ⟨hmembers, hchain⟩ := isCycle_cons_iff.mp hcycle
    exact (mem_waysBack (hnodup.filter _) hscope).mpr
      ⟨(List.nodup_cons.mp hmembers).2, mem_loopScope_of_isCycle hcycle hlater, hchain⟩

theorem cycles_nodup (d : Definition) : d.cycles.Nodup :=
  cyclesFrom_nodup d.preorder_nodup

/-- Every simple cycle is listed, told from the member that the walk meets first. -/
theorem exists_mem_cycles {members : List NodeId} (hcycle : IsCycle d.Joins members) :
    ∃ listed ∈ d.cycles, members ~r listed := by
  obtain ⟨v, hv⟩ := List.exists_mem_of_ne_nil members hcycle.ne_nil
  have hdeclared : v ∈ d.ids := by
    obtain ⟨u, _, hstep⟩ := hcycle.exists_pred hv
    exact target_declared hstep
  -- The first member that the walk meets; all the others come later.
  cases hfirst : d.preorder.find? (fun u => members.contains u) with
  | none =>
      have hnone := List.find?_eq_none.mp hfirst v (mem_preorder.mpr hdeclared)
      exact absurd (List.contains_iff_mem.mpr hv) hnone
  | some start =>
      obtain ⟨hstart, before, later, hvisits, hbefore⟩ :=
        List.find?_eq_some_iff_append.mp hfirst
      obtain ⟨way, hrotated⟩ := IsCycle.exists_rotation (List.contains_iff_mem.mp hstart)
      have hcycle' := hcycle.rotate hrotated
      refine ⟨start :: way, mem_cycles_iff.mpr ⟨hcycle', ?_⟩, hrotated⟩
      refine ⟨before, start, later, way, hvisits, rfl, ?_⟩
      intro u hu
      have hmember : u ∈ members := hrotated.mem_iff.mpr (List.mem_cons_of_mem start hu)
      have hmet : u ∈ before ++ start :: later := by
        obtain ⟨_, _, hstep⟩ := hcycle.exists_pred hmember
        rw [← hvisits]
        exact mem_preorder.mpr (target_declared hstep)
      rcases List.mem_append.mp hmet with hmet | hmet
      · have hnot := hbefore u hmet
        simp [hmember] at hnot
      · rcases List.mem_cons.mp hmet with rfl | hmet
        · exact absurd hu (List.nodup_cons.mp hcycle'.nodup).1
        · exact hmet

/-- The first members of rotations of one cycle are the same, since the walk meets both first. -/
theorem eq_of_mem_cycles_of_isRotated {left right : List NodeId} (hleft : left ∈ d.cycles)
    (hright : right ∈ d.cycles) (hrotated : left ~r right) : left = right := by
  obtain ⟨hcycle, before, start, later, way, hvisits, rfl, hlater⟩ := mem_cycles_iff.mp hleft
  obtain ⟨_, before', start', later', way', hvisits', rfl, hlater'⟩ := mem_cycles_iff.mp hright
  have hpreorder := d.preorder_nodup
  have hsame : start = start' := by
    by_contra hne
    have hmem : start ∈ later' := by
      have hmember : start ∈ start' :: way' := hrotated.mem_iff.mp List.mem_cons_self
      exact hlater' start ((List.mem_cons.mp hmember).resolve_left hne)
    have hmem' : start' ∈ later := by
      have hmember : start' ∈ start :: way := hrotated.mem_iff.mpr List.mem_cons_self
      exact hlater start' ((List.mem_cons.mp hmember).resolve_left (Ne.symm hne))
    have hlt := idxOf_lt_idxOf_of_split hpreorder hvisits hmem'
    have hlt' := idxOf_lt_idxOf_of_split hpreorder hvisits' hmem
    omega
  subst hsame
  rw [IsCycle.eq_of_isRotated hcycle.nodup hrotated]

/-! ### The exit of a loop and its back edge -/

/-- The node is the only condition among the members, and an edge leads from it out of the cycle. -/
def IsExit (d : Definition) (members : List NodeId) (c : NodeId) : Prop :=
  c ∈ members ∧ d.IsCondition c ∧ (∀ v ∈ members, d.IsCondition v → v = c) ∧
    ∃ e ∈ d.edges, e.source = c ∧ e.target ∉ members

/-- Which member a loop is told from does not matter to its exit. -/
theorem IsExit.of_perm {members members' : List NodeId} (hperm : members.Perm members')
    {c : NodeId} (h : d.IsExit members c) : d.IsExit members' c := by
  obtain ⟨hmem, hcond, honly, e, he, hsource, htarget⟩ := h
  exact ⟨hperm.mem_iff.mp hmem, hcond, fun v hv => honly v (hperm.mem_iff.mpr hv),
    e, he, hsource, fun hmem => htarget (hperm.mem_iff.mpr hmem)⟩

theorem exit?_eq_some_iff {members : List NodeId} (hnodup : members.Nodup) {c : NodeId} :
    d.exit? members = some c ↔ d.IsExit members c := by
  have hconditions : ∀ v, v ∈ members.filter
      (fun id => (d.node? id).any (fun n => n.kind == conditionKind)) ↔
        v ∈ members ∧ d.IsCondition v := by
    intro v
    rw [List.mem_filter, isCondition_iff]
  have hfilter := hnodup.filter (fun id => (d.node? id).any (fun n => n.kind == conditionKind))
  unfold exit?
  split
  · rename_i x hsingle
    rw [hsingle] at hconditions
    have hx := (hconditions x).mp List.mem_cons_self
    have hleave : (d.outgoing x).any (fun e => !members.contains e.target) = true ↔
        ∃ e ∈ d.edges, e.source = x ∧ e.target ∉ members := by
      simp [mem_outgoing, and_assoc]
    rw [Option.ite_none_right_eq_some, hleave, Option.some.injEq]
    constructor
    · rintro ⟨hout, rfl⟩
      exact ⟨hx.1, hx.2, fun v hv hcond => List.mem_singleton.mp ((hconditions v).mpr ⟨hv, hcond⟩),
        hout⟩
    · rintro ⟨hmem, hcond, honly, hout⟩
      obtain rfl := honly x hx.1 hx.2
      exact ⟨hout, rfl⟩
  · rename_i hnotsingle
    refine iff_of_false nofun ?_
    rintro ⟨hmem, hcond, honly, _⟩
    -- The conditions are not repeated and all equal `c`, so there would be exactly one.
    have hperm : members.filter
        (fun id => (d.node? id).any (fun n => n.kind == conditionKind)) = [c] := by
      apply List.perm_singleton.mp
      apply (List.perm_ext_iff_of_nodup hfilter (List.nodup_singleton c)).mpr
      intro v
      rw [hconditions, List.mem_singleton]
      constructor
      · rintro ⟨hv, hvcond⟩
        exact honly v hv hvcond
      · rintro rfl
        exact ⟨hmem, hcond⟩
    exact hnotsingle c hperm

theorem mem_loops {l : Loop} : l ∈ d.loops ↔ ∃ members ∈ d.cycles, d.loopOf members = l :=
  List.mem_map

/-- What is told of a loop: its members form a cycle, and an edge of its name closes it. -/
theorem backEdge_loopOf {members : List NodeId} (hcycle : IsCycle d.Joins members) :
    ∃ e ∈ d.edges, e.id = (d.loopOf members).backEdge ∧
      members.getLast? = some e.source ∧ members.head? = some e.target := by
  obtain ⟨last, first, hlast, hfirst, hstep⟩ := hcycle.closing_step
  obtain ⟨e, he, hedge, rfl, rfl⟩ := exists_edge? hstep
  refine ⟨e, he, ?_, hlast, hfirst⟩
  simp only [loopOf, hlast, hfirst, Option.bind_some, hedge, Option.map_some, Option.getD_some]

theorem exit_loopOf {members : List NodeId} (hcycle : IsCycle d.Joins members) {c : NodeId} :
    (d.loopOf members).exit = some c ↔ d.IsExit members c :=
  exit?_eq_some_iff hcycle.nodup

theorem controlled_loopOf {members : List NodeId} (hcycle : IsCycle d.Joins members) :
    (d.loopOf members).controlled = true ↔ ∃ c, d.IsExit members c := by
  simp only [loopOf, Option.isSome_iff_exists, exit?_eq_some_iff hcycle.nodup]

/-- The member that a loop starts at is the first that the walk meets. -/
theorem idxOf_le_of_mem_cycles {members : List NodeId} (hmembers : members ∈ d.cycles)
    {first v : NodeId} (hfirst : members.head? = some first) (hv : v ∈ members) :
    d.preorder.idxOf first ≤ d.preorder.idxOf v := by
  obtain ⟨_, before, start, later, way, hvisits, rfl, hlater⟩ := mem_cycles_iff.mp hmembers
  obtain rfl := Option.some.inj hfirst
  rcases List.mem_cons.mp hv with rfl | hv
  · exact Nat.le_refl _
  · exact Nat.le_of_lt (idxOf_lt_idxOf_of_split d.preorder_nodup hvisits (hlater v hv))

/-- Every simple cycle is told by exactly one entry of the list of loops. -/
theorem existsUnique_loop {members : List NodeId} (hcycle : IsCycle d.Joins members) :
    ∃! i : Fin d.loops.length, members ~r (d.loops.get i).nodes := by
  obtain ⟨listed, hlisted, hrotated⟩ := exists_mem_cycles hcycle
  obtain ⟨i, hi, rfl⟩ := List.mem_iff_getElem.mp hlisted
  have hlength : d.loops.length = d.cycles.length := List.length_map _
  refine ⟨⟨i, hlength ▸ hi⟩, ?_, ?_⟩
  · simpa [loops, loopOf] using hrotated
  · rintro ⟨k, hk⟩ hk'
    have hk'' : k < d.cycles.length := hlength ▸ hk
    have hrotated' : members ~r d.cycles[k] := by simpa [loops, loopOf] using hk'
    have hsame := eq_of_mem_cycles_of_isRotated (List.getElem_mem hk'') hlisted
      (hrotated'.symm.trans hrotated)
    exact Fin.ext ((d.cycles_nodup.getElem_inj_iff).mp hsame)

/-- The loops are the simple cycles, each told once.  Every loop is a simple cycle that its back
edge closes; every simple cycle is a rotation of exactly one entry; a loop starts at the member that
the depth-first walk from the entry point meets first; and it is controlled exactly when its only
condition has an edge out of it, which is then its exit. -/
theorem loops_tell_every_cycle_once (d : Definition) :
    (∀ l ∈ d.loops, IsCycle d.Joins l.nodes ∧
      ∃ e ∈ d.edges, e.id = l.backEdge ∧
        l.nodes.getLast? = some e.source ∧ l.nodes.head? = some e.target) ∧
    (∀ members, IsCycle d.Joins members →
      ∃! i : Fin d.loops.length, members ~r (d.loops.get i).nodes) ∧
    (∃ met, (∀ out, DepthFirst d.successors (d.entry :: d.ids) [] out ↔ out = met) ∧
      ∀ l ∈ d.loops, ∀ first, l.nodes.head? = some first → ∀ v ∈ l.nodes,
        met.idxOf first ≤ met.idxOf v) ∧
    (∀ l ∈ d.loops, (l.controlled = true ↔ ∃ c, d.IsExit l.nodes c) ∧
      ∀ c, l.exit = some c ↔ d.IsExit l.nodes c) := by
  refine ⟨?_, fun members hcycle => existsUnique_loop hcycle,
    ⟨d.preorder, fun out => depthFirst_iff_eq_preorder, ?_⟩, ?_⟩
  · intro l hl
    obtain ⟨members, hmembers, rfl⟩ := mem_loops.mp hl
    have hcycle := (mem_cycles_iff.mp hmembers).1
    exact ⟨hcycle, backEdge_loopOf hcycle⟩
  · intro l hl first hfirst v hv
    obtain ⟨members, hmembers, rfl⟩ := mem_loops.mp hl
    exact idxOf_le_of_mem_cycles hmembers hfirst hv
  · intro l hl
    obtain ⟨members, hmembers, rfl⟩ := mem_loops.mp hl
    have hcycle := (mem_cycles_iff.mp hmembers).1
    exact ⟨controlled_loopOf hcycle, fun c => exit_loopOf hcycle⟩

/-- Two loops through `a` that share the step to `b`; two edges lead from `b` back to `a`. -/
def twinLoops : Definition :=
  .plain "twin loops"
    [.plain "a" "step", .plain "b" "condition", .plain "c" "step", .plain "d" "step"]
    [.plain "e1" "a" "b", .guarded "e2" "b" "a" "true", .guarded "e3" "b" "a" "yes",
      .plain "e4" "b" "c", .plain "e5" "c" "a", .plain "e6" "c" "d"]
    "a" 3

/-- The two edges back to `a` make one loop, which is found whichever member it is told from. -/
theorem twinLoops_told_once :
    twinLoops.loops.map Loop.nodes = [["a", "b"], ["a", "b", "c"]] ∧
      IsCycle twinLoops.Joins ["b", "a"] ∧
      ∃! i : Fin twinLoops.loops.length, ["b", "a"] ~r (twinLoops.loops.get i).nodes := by
  have hcycle : IsCycle twinLoops.Joins ["b", "a"] := by decide
  exact ⟨by cbv, hcycle, (loops_tell_every_cycle_once twinLoops).2.1 ["b", "a"] hcycle⟩

end Definition
end Workflow
