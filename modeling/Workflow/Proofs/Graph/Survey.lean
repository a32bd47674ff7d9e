import Workflow.Proofs.Graph.Circuits
import Workflow.Proofs.Graph.Forward
import Workflow.Proofs.Graph.Tally
/-!
# Surveys

A survey by strongly connected components finds the same loops in the same order, and the same edges
to be ignored, in whatever order the components and their members come.  The circuits found are told
from the member that the walk meets first, so sorting them by the rank of that member leaves one
order only; and of the circuits through the same nodes the first takes, at each step, the first
edge.
-/
namespace Workflow
namespace Definition

open Relation

variable {d : Definition} {components : List (List NodeId)}

/-! ### Components -/

/-- The nodes lead to each other. -/
def Connected (d : Definition) (u v : NodeId) : Prop :=
  ReflTransGen d.Joins u v ∧ ReflTransGen d.Joins v u

theorem Connected.symm {u v : NodeId} (h : d.Connected u v) : d.Connected v u := And.symm h

theorem Connected.trans {u v w : NodeId} (h : d.Connected u v) (h' : d.Connected v w) :
    d.Connected u w :=
  ⟨h.1.trans h'.1, h'.2.trans h.2⟩

/-- The lists are the strongly connected components: every node stands once in one of them, and with
it just the nodes that it is connected with.  Nothing is said of the order. -/
structure Components (d : Definition) (components : List (List NodeId)) : Prop where
  perm : components.flatten.Perm d.ids
  connected : ∀ component ∈ components, ∀ u ∈ component, ∀ v, v ∈ component ↔ d.Connected u v

/-- The nodes that a node is connected with. -/
def component (d : Definition) (u : NodeId) : List NodeId :=
  d.ids.filter (fun v => (d.reachable u).contains v && (d.coreachable u).contains v)

theorem mem_component {u v : NodeId} (hu : u ∈ d.ids) : v ∈ d.component u ↔ d.Connected u v := by
  rw [component, List.mem_filter, Bool.and_eq_true, List.contains_iff_mem, List.contains_iff_mem,
    mem_reachable hu, mem_coreachable hu]
  exact and_iff_right_of_imp fun h => declared_of_reaches hu h.1

/-- Connected nodes have the same component. -/
theorem component_eq {u v : NodeId} (hu : u ∈ d.ids) (h : d.Connected u v) :
    d.component u = d.component v := by
  have hv : v ∈ d.ids := declared_of_reaches hu h.1
  apply List.filter_congr
  intro w _
  rw [Bool.eq_iff_iff, Bool.and_eq_true, Bool.and_eq_true]
  simp only [List.contains_iff_mem, mem_reachable hu, mem_coreachable hu, mem_reachable hv,
    mem_coreachable hv]
  constructor
  · intro hw
    exact h.symm.trans hw
  · intro hw
    exact h.trans hw

theorem Components.of_perm (hperm : components.flatten.Perm d.ids)
    (hparts : ∀ part ∈ components, ∀ u ∈ part, part.Perm (d.component u)) :
    d.Components components := by
  refine ⟨hperm, fun part hpart u hu v => ?_⟩
  rw [(hparts part hpart u hu).mem_iff]
  exact mem_component (hperm.mem_iff.mp (List.mem_flatten.mpr ⟨part, hpart, hu⟩))

/-- The components of the nodes, each once. -/
def connectedComponents (d : Definition) : List (List NodeId) :=
  (d.ids.map d.component).eraseDups

theorem mem_connectedComponents {part : List NodeId} :
    part ∈ d.connectedComponents ↔ ∃ u ∈ d.ids, d.component u = part := by
  rw [connectedComponents, List.mem_eraseDups, List.mem_map]

theorem nodup_flatten_connectedComponents (d : Definition) :
    d.connectedComponents.flatten.Nodup := by
  rw [List.nodup_flatten]
  constructor
  · intro part hpart
    obtain ⟨u, _, rfl⟩ := mem_connectedComponents.mp hpart
    exact d.ids_nodup.filter _
  · refine (nodup_eraseDups (d.ids.map d.component)).imp_of_mem ?_
    intro part part' hpart hpart' hne
    obtain ⟨u, hu, rfl⟩ := mem_connectedComponents.mp hpart
    obtain ⟨u', hu', rfl⟩ := mem_connectedComponents.mp hpart'
    rw [List.disjoint_left]
    intro v hv hv'
    rw [mem_component hu] at hv
    rw [mem_component hu'] at hv'
    exact hne (component_eq hu (hv.trans hv'.symm))

/-- They are the strongly connected components, so every definition has some. -/
theorem components_connectedComponents (d : Definition) : d.Components d.connectedComponents := by
  apply Components.of_perm
  · refine (List.perm_ext_iff_of_nodup d.nodup_flatten_connectedComponents d.ids_nodup).mpr ?_
    intro v
    rw [List.mem_flatten]
    constructor
    · rintro ⟨part, hpart, hv⟩
      obtain ⟨u, _, rfl⟩ := mem_connectedComponents.mp hpart
      exact List.mem_of_mem_filter hv
    · intro hv
      exact ⟨d.component v, mem_connectedComponents.mpr ⟨v, hv, rfl⟩,
        (mem_component hv).mpr ⟨.refl, .refl⟩⟩
  · intro part hpart u hu
    obtain ⟨w, hw, rfl⟩ := mem_connectedComponents.mp hpart
    rw [component_eq hw ((mem_component hw).mp hu)]

/-! ### The circuits of one first member -/

/-- Which nodes a search may pass matters to it, but not in which order they are listed. -/
theorem circuits_congr {scope scope' : List NodeId} (hscope : ∀ v, v ∈ scope ↔ v ∈ scope')
    (start : NodeId) (path : List NodeId) (taken : List Nat) (last : NodeId) :
    d.circuits scope start path taken last = d.circuits scope' start path taken last := by
  induction path, taken, last using circuits.induct scope with
  | case1 path taken last ih =>
      rw [circuits, circuits]
      congr 1
      funext step
      obtain ⟨position, next⟩ := step
      by_cases hnext : next = start
      · simp [hnext]
      · by_cases hfree : next ∈ scope ∧ next ∉ path
        · have hfree' : next ∈ scope' ∧ next ∉ path := ⟨(hscope next).mp hfree.1, hfree.2⟩
          simp only [if_neg hnext, dif_pos hfree, dif_pos hfree', ih position next hfree]
        · have hfree' : ¬ (next ∈ scope' ∧ next ∉ path) :=
            fun h => hfree ⟨(hscope next).mpr h.1, h.2⟩
          simp only [if_neg hnext, dif_neg hfree, dif_neg hfree']

/-- The nodes that the walk meets after a node. -/
def metAfter (d : Definition) (start : NodeId) : List NodeId :=
  d.preorder.filter (fun id => d.rank start < d.rank id)

/-- The circuits whose first member is this node. -/
def circuitsAt (d : Definition) (start : NodeId) : List Circuit :=
  d.circuits (d.loopScope start (d.metAfter start)) start [start] [] start

/-- The cycles whose first member is this node. -/
def cyclesAt (d : Definition) (start : NodeId) : List (List NodeId) :=
  (d.waysBack start start (d.loopScope start (d.metAfter start))).map (start :: ·)

theorem mem_metAfter {start v : NodeId} :
    v ∈ d.metAfter start ↔ v ∈ d.ids ∧ d.rank start < d.rank v := by
  simp [metAfter, mem_preorder]

theorem metAfter_of_split {before later : List NodeId} {start : NodeId}
    (hvisits : d.preorder = before ++ start :: later) : d.metAfter start = later := by
  have hbefore : ∀ v ∈ before, ¬ d.rank start < d.rank v := by
    intro v hv
    obtain ⟨front, back, rfl⟩ := List.append_of_mem hv
    rw [List.append_assoc, List.cons_append] at hvisits
    have hlt := idxOf_lt_idxOf_of_split d.preorder_nodup hvisits
      (List.mem_append_right back List.mem_cons_self)
    exact Nat.lt_asymm hlt
  have hlater : ∀ v ∈ later, d.rank start < d.rank v := fun v hv =>
    idxOf_lt_idxOf_of_split d.preorder_nodup hvisits hv
  rw [metAfter, hvisits, List.filter_append, List.filter_cons_of_neg (by simp),
    List.filter_eq_nil_iff.mpr (by simpa using hbefore), List.nil_append,
    List.filter_eq_self.mpr (by simpa using hlater)]

theorem mem_scope {start v : NodeId} (hstart : start ∈ d.ids) :
    v ∈ d.loopScope start (d.metAfter start) ↔ d.rank start < d.rank v ∧
      ReflTransGen d.Joins start v ∧ ReflTransGen d.Joins v start := by
  simp only [loopScope, List.mem_filter, mem_metAfter, Bool.and_eq_true, List.contains_iff_mem,
    mem_reachable hstart, mem_coreachable hstart]
  constructor
  · rintro ⟨⟨_, hrank⟩, hreach, hback⟩
    exact ⟨hrank, hreach, hback⟩
  · rintro ⟨hrank, hreach, hback⟩
    exact ⟨⟨declared_of_reaches hstart hreach, hrank⟩, hreach, hback⟩

theorem not_mem_scope (d : Definition) (start : NodeId) :
    start ∉ d.loopScope start (d.metAfter start) := by
  simp [loopScope, metAfter]

theorem Components.mem_ids (h : d.Components components) {component : List NodeId}
    (hcomponent : component ∈ components) {v : NodeId} (hv : v ∈ component) : v ∈ d.ids :=
  h.perm.mem_iff.mp (List.mem_flatten.mpr ⟨component, hcomponent, hv⟩)

theorem Components.circuitsFrom_eq (h : d.Components components) {component : List NodeId}
    (hcomponent : component ∈ components) {start : NodeId} (hstart : start ∈ component) :
    d.circuitsFrom component start = d.circuitsAt start := by
  apply circuits_congr
  intro v
  rw [mem_scope (h.mem_ids hcomponent hstart), List.mem_filter,
    h.connected component hcomponent start hstart, decide_eq_true_eq, and_comm, Connected]

theorem head?_of_mem_circuitsAt {start : NodeId} {c : Circuit} (hc : c ∈ d.circuitsAt start) :
    c.members.head? = some start := by
  obtain ⟨way, positions, rfl, _⟩ := (mem_circuits List.mem_cons_self).mp hc
  rfl

/-! ### The circuits of all components -/

/-- The only member of a component has no circuit, so it makes no difference that it is left out. -/
theorem circuits_of_short {component : List NodeId} (hshort : component.length < 2) :
    component.flatMap (d.circuitsFrom component) = [] := by
  rw [List.flatMap_eq_nil_iff]
  intro start hstart
  have hone : component = [start] := by
    cases component with
    | nil => cases hstart
    | cons v rest =>
        cases rest with
        | nil => rw [List.mem_singleton.mp hstart]
        | cons w rest =>
            simp only [List.length_cons] at hshort
            omega
  rw [List.eq_nil_iff_forall_not_mem]
  intro c hc
  obtain ⟨way, positions, _, _, hway, hfollows⟩ := (mem_circuits List.mem_cons_self).mp hc
  have hnone : way = [] := by
    rw [List.eq_nil_iff_forall_not_mem]
    intro v hv
    simpa [hone] using (hway v hv).1
  subst hnone
  obtain ⟨_, _, hleads, _⟩ := follows_cons_iff.mp hfollows
  exact d.not_joins_self start hleads.joins

theorem preorder_pairwise (d : Definition) :
    d.preorder.Pairwise (fun u v => d.rank u < d.rank v) :=
  pairwise_idxOf d.preorder_nodup

/-- The circuits come by the rank of their first member, whatever the order of the components. -/
theorem Components.circuitsOver_eq (h : d.Components components) :
    d.circuitsOver components = d.preorder.flatMap d.circuitsAt := by
  have hfound : (components.flatMap fun component =>
      if component.length < 2 then [] else component.flatMap (d.circuitsFrom component)) =
        components.flatten.flatMap d.circuitsAt := by
    rw [List.flatten_eq_flatMap, List.flatMap_assoc]
    apply List.flatMap_congr
    intro component hcomponent
    have hfrom : component.flatMap (d.circuitsFrom component) = component.flatMap d.circuitsAt :=
      List.flatMap_congr fun start hstart => h.circuitsFrom_eq hcomponent hstart
    by_cases hshort : component.length < 2
    · rw [if_pos hshort, ← circuits_of_short hshort]
      exact hfrom
    · rw [if_neg hshort]
      exact hfrom
  have hperm : components.flatten.Perm d.preorder := by
    refine h.perm.trans ?_
    exact (List.perm_ext_iff_of_nodup d.ids_nodup d.preorder_nodup).mpr fun v => mem_preorder.symm
  rw [circuitsOver, hfound]
  refine sort_flatMap ?_ hperm d.preorder_pairwise
  intro start c hc
  rw [circuitRank, head?_of_mem_circuitsAt hc]
  rfl

/-- The cycles, first member by first member. -/
theorem cycles_eq_flatMap (d : Definition) : d.cycles = d.preorder.flatMap d.cyclesAt := by
  suffices hfrom : ∀ visits before, d.preorder = before ++ visits →
      d.cyclesFrom visits = visits.flatMap d.cyclesAt from hfrom d.preorder [] rfl
  intro visits
  induction visits with
  | nil =>
      intro _ _
      rfl
  | cons start later ih =>
      intro before hvisits
      rw [cyclesFrom, List.flatMap_cons, ih (before ++ [start]) (by simp [hvisits]), cyclesAt,
        metAfter_of_split hvisits]

/-- Without the edges, and each told once, the circuits are the cycles. -/
theorem Components.eraseDups_members (h : d.Components components) :
    ((d.circuitsOver components).map Circuit.members).eraseDups = d.cycles := by
  have hkept : ∀ start ∈ d.preorder,
      ((d.circuitsAt start).map Circuit.members).eraseDups = d.cyclesAt start := by
    intro start _
    refine eraseDups_members_circuits List.mem_cons_self ?_ ?_
    · exact (d.preorder_nodup.filter _).filter _
    · intro v
      have hstart := d.not_mem_scope start
      constructor
      · intro hv
        refine ⟨hv, ?_⟩
        rw [List.mem_singleton]
        rintro rfl
        exact hstart hv
      · intro hv
        exact hv.1
  have hapart : ∀ start start', start ≠ start' →
      (d.cyclesAt start).Disjoint (d.cyclesAt start') := by
    intro start start' hne
    rw [List.disjoint_left]
    intro members hmembers hmembers'
    obtain ⟨way, _, rfl⟩ := List.mem_map.mp hmembers
    obtain ⟨way', _, hsame⟩ := List.mem_map.mp hmembers'
    exact hne (List.cons.inj hsame).1.symm
  have hparts : (d.preorder.flatMap fun start =>
      (d.circuitsAt start).map Circuit.members).eraseDups =
        (d.preorder.map id).eraseDups.flatMap d.cyclesAt := eraseDups_flatMap hkept hapart
  rw [h.circuitsOver_eq, List.map_flatMap, hparts, List.map_id,
    eraseDups_of_nodup d.preorder_nodup, cycles_eq_flatMap]

/-- The circuits are the cycles with edges that lead around them. -/
theorem Components.mem_circuitsOver (h : d.Components components) {c : Circuit} :
    c ∈ d.circuitsOver components ↔
      c.members ∈ d.cycles ∧ d.Follows c.edges (c.members ++ c.members.head?.toList) := by
  rw [h.circuitsOver_eq, List.mem_flatMap, cycles_eq_flatMap, List.mem_flatMap]
  constructor
  · rintro ⟨start, hstart, hc⟩
    obtain ⟨way, positions, rfl, hnodup, hway, hfollows⟩ :=
      (mem_circuits List.mem_cons_self).mp hc
    refine ⟨⟨start, hstart, List.mem_map.mpr ⟨way, ?_, rfl⟩⟩, hfollows⟩
    exact (mem_waysBack ((d.preorder_nodup.filter _).filter _) (d.not_mem_scope start)).mpr
      ⟨hnodup, fun v hv => (hway v hv).1, hfollows.isChain⟩
  · obtain ⟨members, positions⟩ := c
    rintro ⟨⟨start, hstart, hmembers⟩, hfollows⟩
    obtain ⟨way, hway, rfl⟩ := List.mem_map.mp hmembers
    obtain ⟨hnodup, hscope, _⟩ :=
      (mem_waysBack ((d.preorder_nodup.filter _).filter _) (d.not_mem_scope start)).mp hway
    refine ⟨start, hstart, (mem_circuits List.mem_cons_self).mpr
      ⟨way, positions, rfl, hnodup, fun v hv => ⟨hscope v hv, ?_⟩, hfollows⟩⟩
    rw [List.mem_singleton]
    rintro rfl
    exact d.not_mem_scope v (hscope v hv)

/-- One circuit comes before another: its first member is met earlier, or, if the first members are
the same, its edges come first in the lexicographic order. -/
def Before (d : Definition) (c c' : Circuit) : Prop :=
  d.circuitRank c < d.circuitRank c' ∨
    c.members.head? = c'.members.head? ∧ List.Lex (· < ·) c.edges c'.edges

theorem Components.circuitsOver_pairwise (h : d.Components components) :
    (d.circuitsOver components).Pairwise d.Before := by
  rw [h.circuitsOver_eq, List.pairwise_flatMap]
  constructor
  · intro start _
    refine (d.circuits_pairwise _ [] start List.mem_cons_self).imp_of_mem ?_
    intro c c' hc hc' hlt
    exact Or.inr ⟨(head?_of_mem_circuitsAt hc).trans (head?_of_mem_circuitsAt hc').symm, hlt⟩
  · apply d.preorder_pairwise.imp
    intro start start' hlt c hc c' hc'
    left
    rw [circuitRank, circuitRank, head?_of_mem_circuitsAt hc, head?_of_mem_circuitsAt hc']
    exact hlt

/-! ### The first circuit through some nodes -/

/-- The circuits that loops are told of: of those through the same nodes the first. -/
def toldCircuits (d : Definition) (components : List (List NodeId)) : List Circuit :=
  (d.circuitsOver components).eraseDupsBy (fun a b => a.members == b.members)

theorem toldCircuits_sublist (d : Definition) (components : List (List NodeId)) :
    (d.toldCircuits components).Sublist (d.circuitsOver components) :=
  eraseDupsBy_sublist Circuit.members _

theorem Components.of_mem_toldCircuits (h : d.Components components) {c : Circuit}
    (hc : c ∈ d.toldCircuits components) :
    c.members ∈ d.cycles ∧ d.Follows c.edges (c.members ++ c.members.head?.toList) :=
  h.mem_circuitsOver.mp ((d.toldCircuits_sublist components).subset hc)

/-- The first circuit through some nodes takes the least edges. -/
theorem Components.edges_least (h : d.Components components) {c : Circuit}
    (hc : c ∈ d.toldCircuits components) {positions : List Nat}
    (hfollows : d.Follows positions (c.members ++ c.members.head?.toList)) :
    positions = c.edges ∨ List.Lex (· < ·) c.edges positions := by
  have hother : ⟨c.members, positions⟩ ∈ d.circuitsOver components :=
    h.mem_circuitsOver.mpr ⟨(h.of_mem_toldCircuits hc).1, hfollows⟩
  rcases sublist_of_mem_eraseDupsBy hc hother rfl with hsame | hlater
  · exact Or.inl (congrArg Circuit.edges hsame)
  · rcases List.rel_of_pairwise_cons (h.circuitsOver_pairwise.sublist hlater)
      List.mem_cons_self with hrank | ⟨_, hlt⟩
    · exact absurd hrank (Nat.lt_irrefl _)
    · exact Or.inr hlt

theorem edge?_eq_find? (d : Definition) (u v : NodeId) :
    d.edge? u v = d.edges.find? (fun e => e.source == u && e.target == v) := by
  rw [edge?, outgoing, List.find?_filter]
  congr 1
  funext e
  simp only [Bool.decide_and, Bool.decide_eq_true]

/-- The first edge between two nodes is the one of the least position. -/
theorem edge?_eq_of_least {position : Nat} {u v : NodeId} (hleads : d.LeadsAt position u v)
    (hleast : ∀ other, d.LeadsAt other u v → position ≤ other) :
    d.edge? u v = d.edges[position]? := by
  obtain ⟨e, he, hsource, htarget⟩ := hleads
  obtain ⟨hposition, he⟩ := List.getElem?_eq_some_iff.mp he
  rw [edge?_eq_find?, List.getElem?_eq_getElem hposition, he, List.find?_eq_some_iff_getElem]
  refine ⟨by simp [hsource, htarget], position, hposition, he, ?_⟩
  intro other hother
  rw [Bool.not_eq_true']
  by_contra hboth
  rw [Bool.not_eq_false, Bool.and_eq_true, beq_iff_eq, beq_iff_eq] at hboth
  have hle := hleast other ⟨_, List.getElem?_eq_getElem (by omega), hboth⟩
  omega

/-- The path around a cycle ends with the step from its last member to its first. -/
theorem exists_closing_step {members : List NodeId} (hcycle : IsCycle d.Joins members) :
    ∃ front last first, members.getLast? = some last ∧ members.head? = some first ∧
      List.IsChain d.Joins (front ++ [last]) ∧
        members ++ members.head?.toList = front ++ [last, first] := by
  obtain ⟨last, first, hlast, hfirst, _⟩ := hcycle.closing_step
  obtain ⟨front, hfront⟩ := List.getLast?_eq_some_iff.mp hlast
  have hpath : members ++ members.head?.toList = front ++ [last, first] := by
    rw [hfirst, hfront, List.append_assoc]
    rfl
  refine ⟨front, last, first, hlast, hfirst, ?_, hpath⟩
  rw [← hfront]
  exact (List.isChain_append.mp hcycle.closed).1

/-- The last edge of the first circuit through some nodes is the first one that closes it. -/
theorem Components.loopAlong_eq (h : d.Components components) {c : Circuit}
    (hc : c ∈ d.toldCircuits components) : d.loopAlong c = d.loopOf c.members := by
  obtain ⟨hmembers, hfollows⟩ := h.of_mem_toldCircuits hc
  have hleast : ∀ positions, d.Follows positions (c.members ++ c.members.head?.toList) →
      positions = c.edges ∨ List.Lex (· < ·) c.edges positions :=
    fun _ hfollows => h.edges_least hc hfollows
  obtain ⟨front, last, first, hlast, hfirst, _, hpath⟩ :=
    exists_closing_step (mem_cycles_iff.mp hmembers).1
  rw [hpath] at hfollows hleast
  obtain ⟨before, position, hedges, hbefore, hleads⟩ := follows_concat.mp hfollows
  have hposition : ∀ other, d.LeadsAt other last first → position ≤ other := by
    intro other hother
    by_contra hlt
    have hless : List.Lex (· < ·) (before ++ [other]) c.edges := by
      rw [hedges]
      exact List.Lex.append_left _ (List.Lex.rel (Nat.lt_of_not_le hlt)) before
    rcases hleast _ (follows_concat.mpr ⟨before, other, rfl, hbefore, hother⟩) with hsame | hmore
    · rw [hsame] at hless
      exact List.lex_irrefl (fun _ => Nat.lt_irrefl _) _ hless
    · exact asymm hless hmore
  simp only [loopAlong, loopOf, hlast, hfirst, hedges, List.getLast?_concat, Option.bind_some,
    edge?_eq_of_least hleads hposition]

/-- A survey finds the loops in their order, whatever the order of the components. -/
theorem Components.survey_loops (h : d.Components components) :
    (d.survey components).loops = d.loops := by
  have hmembers : (d.toldCircuits components).map Circuit.members = d.cycles := by
    rw [toldCircuits, map_eraseDupsBy, h.eraseDups_members]
  rw [loops, ← hmembers, List.map_map]
  exact List.map_congr_left fun c hc => h.loopAlong_eq hc

/-! ### The edges to be ignored -/

section Ignorable

variable {e : Edge} {position : Nat}

theorem leadsAt_iff (he : d.edges[position]? = some e) {u v : NodeId} :
    d.LeadsAt position u v ↔ e.source = u ∧ e.target = v := by
  simp [LeadsAt, he]

/-- An edge is the last one of a circuit if it closes a loop. -/
theorem Components.exists_last_iff (h : d.Components components)
    (he : d.edges[position]? = some e) :
    (∃ c ∈ d.circuitsOver components, c.edges.getLast? = some position) ↔
      ∃ l ∈ d.loops, l.closedBy e = true := by
  constructor
  · rintro ⟨c, hc, hlast⟩
    obtain ⟨hmembers, hfollows⟩ := h.mem_circuitsOver.mp hc
    obtain ⟨front, last, first, hgetLast, hhead, _, hpath⟩ :=
      exists_closing_step (mem_cycles_iff.mp hmembers).1
    rw [hpath] at hfollows
    obtain ⟨before, position', hedges, _, hleads⟩ := follows_concat.mp hfollows
    rw [hedges, List.getLast?_concat, Option.some.injEq] at hlast
    subst hlast
    obtain ⟨rfl, rfl⟩ := (leadsAt_iff he).mp hleads
    refine ⟨d.loopOf c.members, mem_loops.mpr ⟨c.members, hmembers, rfl⟩, ?_⟩
    simp [Loop.closedBy, loopOf, hgetLast, hhead]
  · rintro ⟨l, hl, hclosed⟩
    obtain ⟨members, hmembers, rfl⟩ := mem_loops.mp hl
    obtain ⟨front, last, first, hgetLast, hhead, hchain, hpath⟩ :=
      exists_closing_step (mem_cycles_iff.mp hmembers).1
    simp only [Loop.closedBy, loopOf, hgetLast, hhead, Bool.and_eq_true, beq_iff_eq,
      Option.some.injEq] at hclosed
    obtain ⟨rfl, rfl⟩ := hclosed
    obtain ⟨before, hbefore⟩ := exists_follows hchain
    refine ⟨⟨members, before ++ [position]⟩, h.mem_circuitsOver.mpr ⟨hmembers, ?_⟩,
      List.getLast?_concat⟩
    dsimp only
    rw [hpath]
    exact follows_concat.mpr ⟨before, position, rfl, hbefore, (leadsAt_iff he).mpr ⟨rfl, rfl⟩⟩

/-- All circuits that take an edge can be left if all loops that pass it are controlled. -/
theorem Components.forall_circuit_iff (h : d.Components components)
    (he : d.edges[position]? = some e) :
    (∀ c ∈ d.circuitsOver components,
      (d.exit? c.members).isSome = true ∨ position ∉ c.edges) ↔
      ∀ l ∈ d.loops, l.controlled = true ∨ l.passes e = false := by
  constructor
  · intro hcircuits l hl
    obtain ⟨members, hmembers, rfl⟩ := mem_loops.mp hl
    cases hpasses : (d.loopOf members).passes e with
    | false => exact Or.inr rfl
    | true =>
        left
        have hstep : (e.source, e.target) ∈ (members ++ members.head?.toList).zip
            (members ++ members.head?.toList).tail := List.contains_iff_mem.mp hpasses
        obtain ⟨positions, hfollows, htaken⟩ := exists_follows_through
          (mem_cycles_iff.mp hmembers).1.closed hstep ((leadsAt_iff he).mpr ⟨rfl, rfl⟩)
        exact (hcircuits ⟨members, positions⟩
          (h.mem_circuitsOver.mpr ⟨hmembers, hfollows⟩)).resolve_right (not_not_intro htaken)
  · intro hloops c hc
    obtain ⟨hmembers, hfollows⟩ := h.mem_circuitsOver.mp hc
    by_cases htaken : position ∈ c.edges
    · left
      obtain ⟨⟨u, v⟩, hstep, hleads⟩ := hfollows.exists_step htaken
      obtain ⟨rfl, rfl⟩ := (leadsAt_iff he).mp hleads
      have hpasses : (d.loopOf c.members).passes e = true := List.contains_iff_mem.mpr hstep
      refine (hloops _ (mem_loops.mpr ⟨c.members, hmembers, rfl⟩)).resolve_right ?_
      rw [hpasses]
      exact nofun
    · exact Or.inr htaken

/-- Only one edge has the name. -/
theorem edge_named_iff (he : d.edges[position]? = some e) {other : Nat} :
    (d.edges[other]?).map Edge.id = some e.id ↔ other = position := by
  obtain ⟨hposition, rfl⟩ := List.getElem?_eq_some_iff.mp he
  constructor
  · intro hnamed
    have hsame : (d.edges.map Edge.id)[position]? = (d.edges.map Edge.id)[other]? := by
      rw [List.getElem?_map, List.getElem?_map, hnamed, he, Option.map_some]
    exact ((List.getElem?_inj (by simpa using hposition) d.edges_nodup).mp hsame).symm
  · rintro rfl
    rw [he, Option.map_some]

/-- A survey finds the edges that the order ignores. -/
theorem Components.mem_ignorable (h : d.Components components) (he : e ∈ d.edges) :
    e.id ∈ (d.survey components).ignorable ↔ isIgnored d.loops e = true := by
  obtain ⟨position, hposition⟩ := List.mem_iff_getElem?.mp he
  simp only [survey, List.mem_filterMap, List.mem_filter, edge_named_iff hposition, exists_eq_right,
    List.all_eq_true, Bool.or_eq_true, Bool.not_eq_true', List.contains_eq_mem,
    decide_eq_false_iff_not, h.exists_last_iff hposition, h.forall_circuit_iff hposition, isIgnored,
    Bool.and_eq_true, List.any_eq_true]

/-- So surveying and counting give the order, or the nodes that cannot be arranged. -/
theorem Components.surveyedOrder_eq (h : d.Components components) :
    d.surveyedOrder components = some d.order := by
  have hkept : d.edges.filter (fun e => !(d.survey components).ignorable.contains e.id) =
      d.forwardEdges d.loops := by
    apply List.filter_congr
    intro e he
    congr 1
    rw [Bool.eq_iff_iff, List.contains_iff_mem, h.mem_ignorable he]
  rw [surveyedOrder, hkept]
  exact countedOrder_eq fun e he => mem_edges_of_mem_forwardEdges he

end Ignorable
end Definition
end Workflow
