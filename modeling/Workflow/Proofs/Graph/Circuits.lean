import Mathlib.Data.List.Forall2
import Mathlib.Data.List.Lex
import Workflow.Graph.Survey
import Workflow.Proofs.Graph.Loops
import Workflow.Proofs.Sorting
/-!
# Circuits

The search from a member of a component finds every way back along edges through members of its
scope, and it finds them in the lexicographic order of the edges taken.  Without the edges they are
the ways back that the loops are made of.
-/
namespace Workflow
namespace Definition

variable {d : Definition}

/-! ### Edges by position -/

/-- The edge at this position leads from the one node to the other. -/
def LeadsAt (d : Definition) (position : Nat) (u v : NodeId) : Prop :=
  ∃ e, d.edges[position]? = some e ∧ e.source = u ∧ e.target = v

/-- The edges at these positions lead along the path, from each node to the next. -/
def Follows (d : Definition) (positions : List Nat) (path : List NodeId) : Prop :=
  List.Forall₂ (fun position step => d.LeadsAt position step.1 step.2) positions
    (path.zip path.tail)

theorem follows_singleton {positions : List Nat} {u : NodeId} :
    d.Follows positions [u] ↔ positions = [] := by
  simp [Follows]

theorem follows_cons_iff {positions : List Nat} {u v : NodeId} {path : List NodeId} :
    d.Follows positions (u :: v :: path) ↔ ∃ position rest, d.LeadsAt position u v ∧
      d.Follows rest (v :: path) ∧ positions = position :: rest :=
  List.forall₂_cons_right_iff

theorem follows_cons_cons {position : Nat} {positions : List Nat} {u v : NodeId}
    {path : List NodeId} :
    d.Follows (position :: positions) (u :: v :: path) ↔
      d.LeadsAt position u v ∧ d.Follows positions (v :: path) :=
  List.forall₂_cons

theorem LeadsAt.joins {position : Nat} {u v : NodeId} (h : d.LeadsAt position u v) :
    d.Joins u v := by
  obtain ⟨e, he, hends⟩ := h
  exact ⟨e, List.mem_of_getElem? he, hends⟩

theorem exists_leadsAt {u v : NodeId} (h : d.Joins u v) : ∃ position, d.LeadsAt position u v := by
  obtain ⟨e, he, hends⟩ := h
  obtain ⟨position, hposition⟩ := List.mem_iff_getElem?.mp he
  exact ⟨position, e, hposition, hends⟩

theorem Follows.isChain {positions : List Nat} {path : List NodeId}
    (h : d.Follows positions path) : List.IsChain d.Joins path := by
  induction path generalizing positions with
  | nil => exact List.isChain_nil
  | cons u path ih =>
      cases path with
      | nil => exact List.isChain_singleton u
      | cons v path =>
          obtain ⟨position, rest, hleads, hrest, rfl⟩ := follows_cons_iff.mp h
          exact List.isChain_cons_cons.mpr ⟨hleads.joins, ih hrest⟩

/-- The last of the edges along a path leads to its end. -/
theorem follows_concat {positions : List Nat} {front : List NodeId} {u v : NodeId} :
    d.Follows positions (front ++ [u, v]) ↔ ∃ before position,
      positions = before ++ [position] ∧ d.Follows before (front ++ [u]) ∧
        d.LeadsAt position u v := by
  induction front generalizing positions with
  | nil =>
      simp only [List.nil_append, follows_cons_iff, follows_singleton]
      constructor
      · rintro ⟨position, _, hleads, rfl, rfl⟩
        exact ⟨[], position, rfl, rfl, hleads⟩
      · rintro ⟨_, position, rfl, rfl, hleads⟩
        exact ⟨position, [], hleads, rfl, rfl⟩
  | cons w front ih =>
      cases front with
      | nil =>
          simp only [List.cons_append, List.nil_append, follows_cons_iff, follows_singleton]
          constructor
          · rintro ⟨first, _, hfirst, ⟨position, _, hleads, rfl, rfl⟩, rfl⟩
            exact ⟨[first], position, rfl, ⟨first, [], hfirst, rfl, rfl⟩, hleads⟩
          · rintro ⟨_, position, rfl, ⟨first, _, hfirst, rfl, rfl⟩, hleads⟩
            exact ⟨first, [position], hfirst, ⟨position, [], hleads, rfl, rfl⟩, rfl⟩
      | cons x front =>
          simp only [List.cons_append, follows_cons_iff] at ih ⊢
          constructor
          · rintro ⟨first, rest, hfirst, hrest, rfl⟩
            obtain ⟨before, position, rfl, hbefore, hleads⟩ := ih.mp hrest
            exact ⟨first :: before, position, rfl, ⟨first, before, hfirst, hbefore, rfl⟩, hleads⟩
          · rintro ⟨_, position, rfl, ⟨first, before, hfirst, hbefore, rfl⟩, hleads⟩
            exact ⟨first, before ++ [position], hfirst,
              ih.mpr ⟨before, position, rfl, hbefore, hleads⟩, rfl⟩

/-- Every edge along a path leads from one node of it to the next. -/
theorem Follows.exists_step {positions : List Nat} {path : List NodeId}
    (h : d.Follows positions path) {position : Nat} (hposition : position ∈ positions) :
    ∃ step ∈ path.zip path.tail, d.LeadsAt position step.1 step.2 := by
  unfold Follows at h
  generalize path.zip path.tail = steps at h ⊢
  induction h with
  | nil => cases hposition
  | @cons first step positions steps hleads _ ih =>
      rcases List.mem_cons.mp hposition with rfl | hposition
      · exact ⟨step, List.mem_cons_self, hleads⟩
      · obtain ⟨later, hlater, hleads⟩ := ih hposition
        exact ⟨later, List.mem_cons_of_mem step hlater, hleads⟩

/-- And from each node of it to the next there is one of the edges. -/
theorem Follows.exists_position {positions : List Nat} {path : List NodeId}
    (h : d.Follows positions path) {step : NodeId × NodeId} (hstep : step ∈ path.zip path.tail) :
    ∃ position ∈ positions, d.LeadsAt position step.1 step.2 := by
  unfold Follows at h
  generalize path.zip path.tail = steps at h hstep
  induction h with
  | nil => cases hstep
  | @cons first other positions steps hleads _ ih =>
      rcases List.mem_cons.mp hstep with rfl | hstep
      · exact ⟨first, List.mem_cons_self, hleads⟩
      · obtain ⟨later, hlater, hleads⟩ := ih hstep
        exact ⟨later, List.mem_cons_of_mem first hlater, hleads⟩

/-- Along a path of joined nodes there are edges. -/
theorem exists_follows {path : List NodeId} (hchain : List.IsChain d.Joins path) :
    ∃ positions, d.Follows positions path := by
  rw [isChain_iff_forall_mem_zip_tail] at hchain
  unfold Follows
  generalize path.zip path.tail = steps at hchain ⊢
  induction steps with
  | nil => exact ⟨[], List.Forall₂.nil⟩
  | cons step steps ih =>
      obtain ⟨hstep, hsteps⟩ := List.forall_mem_cons.mp hchain
      obtain ⟨position, hleads⟩ := exists_leadsAt hstep
      obtain ⟨positions, hpositions⟩ := ih hsteps
      exact ⟨position :: positions, List.Forall₂.cons hleads hpositions⟩

/-- Any edge that leads from a node of the path to the next may be among them. -/
theorem exists_follows_through {path : List NodeId} (hchain : List.IsChain d.Joins path)
    {position : Nat} {step : NodeId × NodeId} (hstep : step ∈ path.zip path.tail)
    (hleads : d.LeadsAt position step.1 step.2) :
    ∃ positions, d.Follows positions path ∧ position ∈ positions := by
  obtain ⟨positions, hfollows⟩ := exists_follows hchain
  unfold Follows at hfollows ⊢
  generalize path.zip path.tail = steps at hstep hfollows ⊢
  induction hfollows with
  | nil => cases hstep
  | @cons first other positions steps hfirst hrest ih =>
      rcases List.mem_cons.mp hstep with rfl | hstep
      · exact ⟨position :: positions, List.Forall₂.cons hleads hrest, List.mem_cons_self⟩
      · obtain ⟨positions', hpositions', hmem⟩ := ih hstep
        exact ⟨first :: positions', List.Forall₂.cons hfirst hpositions',
          List.mem_cons_of_mem first hmem⟩

theorem mem_departures {position : Nat} {u v : NodeId} :
    (position, v) ∈ d.departures u ↔ d.LeadsAt position u v := by
  simp only [departures, List.mem_map, List.mem_filter, Prod.exists, List.mem_zipIdx_iff_getElem?,
    beq_iff_eq, Prod.mk.injEq, LeadsAt]
  constructor
  · rintro ⟨e, p, ⟨he, hsource⟩, rfl, htarget⟩
    exact ⟨e, he, hsource, htarget⟩
  · rintro ⟨e, he, hsource, htarget⟩
    exact ⟨e, position, ⟨he, hsource⟩, rfl, htarget⟩

/-- Edges depart in the order of declaration. -/
theorem departures_pairwise (d : Definition) (u : NodeId) :
    (d.departures u).Pairwise (fun a b => a.1 < b.1) := by
  rw [departures, List.pairwise_map]
  apply List.Pairwise.filter
  have hpositions : (d.edges.zipIdx.map Prod.snd).Pairwise (· < ·) := by
    rw [List.zipIdx_map_snd]
    exact List.pairwise_lt_range'
  exact List.pairwise_map.mp hpositions

theorem targets_departures (d : Definition) (u : NodeId) :
    (d.departures u).map Prod.snd = (d.outgoing u).map Edge.target := by
  have hfst : d.edges.zipIdx.map Prod.fst = d.edges := List.zipIdx_map_fst 0 d.edges
  rw [departures, outgoing, List.map_map]
  conv_rhs => rw [← hfst, List.filter_map, List.map_map]
  rfl

/-! ### What the search finds -/

variable {scope : List NodeId} {start : NodeId}

/-- What the search finds along one edge: it is back at the start, or it goes on from a node that it
may pass. -/
theorem mem_branch_iff {path : List NodeId} {taken : List Nat} {position : Nat} {next : NodeId}
    {c : Circuit} :
    (c ∈ if next = start then [⟨path, taken ++ [position]⟩]
      else if next ∈ scope ∧ next ∉ path then
        d.circuits scope start (path ++ [next]) (taken ++ [position]) next
      else []) ↔
      next = start ∧ c = ⟨path, taken ++ [position]⟩ ∨ next ≠ start ∧ (next ∈ scope ∧ next ∉ path) ∧
        c ∈ d.circuits scope start (path ++ [next]) (taken ++ [position]) next := by
  by_cases hnext : next = start
  · simp [hnext]
  · by_cases hfree : next ∈ scope ∧ next ∉ path
    · simp [hnext, hfree]
    · rw [if_neg hnext, if_neg hfree]
      simp only [List.not_mem_nil, hnext, hfree, false_and, and_false, or_self]

/-- The circuits are the ways on to the start through free nodes, none twice, with the edges that
lead along them. -/
theorem mem_circuits {path : List NodeId} {taken : List Nat} {last : NodeId}
    (hstart : start ∈ path) {c : Circuit} :
    c ∈ d.circuits scope start path taken last ↔ ∃ way positions,
      c = ⟨path ++ way, taken ++ positions⟩ ∧ way.Nodup ∧ (∀ v ∈ way, v ∈ scope ∧ v ∉ path) ∧
        d.Follows positions (last :: way ++ [start]) := by
  induction path, taken, last using circuits.induct scope with
  | case1 path taken last ih =>
      have ih' := fun position next hfree =>
        ih position next hfree (List.mem_append_left [next] hstart)
      rw [circuits, List.mem_flatMap]
      constructor
      · rintro ⟨⟨position, next⟩, hdeparts, hbranch⟩
        have hleads := mem_departures.mp hdeparts
        rcases mem_branch_iff.mp hbranch with ⟨rfl, rfl⟩ | ⟨_, hfree, hc⟩
        · exact ⟨[], [position], by simp, List.nodup_nil, by simp,
            follows_cons_cons.mpr ⟨hleads, follows_singleton.mpr rfl⟩⟩
        · obtain ⟨way, positions, rfl, hnodup, hway, hfollows⟩ := (ih' position next hfree).mp hc
          have hnew : next ∉ way := fun hmem => (hway next hmem).2 (by simp)
          refine ⟨next :: way, position :: positions, by simp, List.nodup_cons.mpr ⟨hnew, hnodup⟩,
            ?_, follows_cons_cons.mpr ⟨hleads, hfollows⟩⟩
          intro v hv
          rcases List.mem_cons.mp hv with rfl | hv
          · exact hfree
          · exact ⟨(hway v hv).1, fun hmem => (hway v hv).2 (List.mem_append_left _ hmem)⟩
      · rintro ⟨way, positions, rfl, hnodup, hway, hfollows⟩
        cases way with
        | nil =>
            obtain ⟨position, rest, hleads, hrest, rfl⟩ := follows_cons_iff.mp hfollows
            obtain rfl := follows_singleton.mp hrest
            refine ⟨(position, start), mem_departures.mpr hleads,
              mem_branch_iff.mpr (Or.inl ⟨rfl, ?_⟩)⟩
            rw [List.append_nil]
        | cons next way =>
            obtain ⟨position, rest, hleads, hrest, rfl⟩ := follows_cons_iff.mp hfollows
            obtain ⟨hnew, hnodup⟩ := List.nodup_cons.mp hnodup
            have hfree := hway next List.mem_cons_self
            have hne : next ≠ start := fun heq => hfree.2 (heq ▸ hstart)
            refine ⟨(position, next), mem_departures.mpr hleads,
              mem_branch_iff.mpr (Or.inr ⟨hne, hfree, ?_⟩)⟩
            refine (ih' position next hfree).mpr ⟨way, rest, by simp, hnodup, ?_, hrest⟩
            intro v hv
            obtain ⟨hscope, hpath⟩ := hway v (List.mem_cons_of_mem next hv)
            refine ⟨hscope, ?_⟩
            rw [List.mem_append, List.mem_singleton]
            rintro (hmem | rfl)
            · exact hpath hmem
            · exact hnew hv

/-- The circuits found along an edge take it after the edges taken before. -/
theorem edges_of_mem_branch {path : List NodeId} {taken : List Nat} {position : Nat}
    {next : NodeId} (hstart : start ∈ path) {c : Circuit}
    (hc : c ∈ if next = start then [⟨path, taken ++ [position]⟩]
      else if next ∈ scope ∧ next ∉ path then
        d.circuits scope start (path ++ [next]) (taken ++ [position]) next
      else []) : ∃ positions, c.edges = taken ++ position :: positions := by
  rcases mem_branch_iff.mp hc with ⟨_, rfl⟩ | ⟨_, _, hfound⟩
  · exact ⟨[], rfl⟩
  · obtain ⟨_, positions, rfl, _⟩ := (mem_circuits (List.mem_append_left _ hstart)).mp hfound
    exact ⟨positions, by simp⟩

/-- The search comes to its circuits in the lexicographic order of the edges taken. -/
theorem circuits_pairwise (d : Definition) (scope : List NodeId) {start : NodeId}
    {path : List NodeId} (taken : List Nat) (last : NodeId) (hstart : start ∈ path) :
    (d.circuits scope start path taken last).Pairwise
      (fun a b => List.Lex (· < ·) a.edges b.edges) := by
  induction path, taken, last using circuits.induct scope with
  | case1 path taken last ih =>
      rw [circuits, List.pairwise_flatMap]
      constructor
      · rintro ⟨position, next⟩ _
        dsimp only
        split
        · exact List.pairwise_singleton _ _
        · split
          · rename_i hfree
            exact ih position next hfree (List.mem_append_left _ hstart)
          · exact List.Pairwise.nil
      · apply (d.departures_pairwise last).imp
        rintro ⟨position, next⟩ ⟨position', next'⟩ hlt c hc c' hc'
        obtain ⟨positions, hedges⟩ := edges_of_mem_branch hstart hc
        obtain ⟨positions', hedges'⟩ := edges_of_mem_branch hstart hc'
        rw [hedges, hedges']
        exact List.Lex.append_left _ (List.Lex.rel hlt) taken

/-- Without the edges, and each told once, the circuits are the ways back. -/
theorem eraseDups_members_circuits {path : List NodeId} {taken : List Nat} {last : NodeId}
    {free : List NodeId} (hstart : start ∈ path) (hnodup : free.Nodup)
    (hfree : ∀ v, v ∈ free ↔ v ∈ scope ∧ v ∉ path) :
    ((d.circuits scope start path taken last).map Circuit.members).eraseDups =
      (d.waysBack start last free).map (path ++ ·) := by
  induction path, taken, last using circuits.induct scope generalizing free with
  | case1 path taken last ih =>
      rw [circuits, waysBack, successors, ← targets_departures, List.map_flatMap, List.map_flatMap]
      apply eraseDups_flatMap
      · rintro ⟨position, next⟩ _
        dsimp only
        by_cases hnext : next = start
        · simp [hnext, List.eraseDups_cons]
        · by_cases hmem : next ∈ free
          · have hscope := (hfree next).mp hmem
            rw [if_neg hnext, dif_pos hscope, if_neg hnext, dif_pos hmem,
              ih position next hscope (List.mem_append_left _ hstart) (hnodup.erase next) ?_,
              List.map_map]
            · congr 1
              funext way
              simp
            · intro v
              rw [hnodup.mem_erase_iff, hfree]
              simp only [List.mem_append, List.mem_singleton, not_or]
              tauto
          · have hscope : ¬ (next ∈ scope ∧ next ∉ path) := fun h => hmem ((hfree next).mpr h)
            simp [hnext, hmem, hscope]
      · intro next next' hne members hmembers hmembers'
        obtain ⟨way, hway, rfl⟩ := List.mem_map.mp hmembers
        obtain ⟨way', hway', hsame⟩ := List.mem_map.mp hmembers'
        obtain rfl := List.append_cancel_left hsame
        exact hne ((headD_of_mem_branch hway).symm.trans (headD_of_mem_branch hway'))

end Definition
end Workflow
