import Workflow.Proofs.Findings
import Workflow.Proofs.Graph.Survey
/-!
# The order of the loops

Loops are told in one order, whichever way they are looked for: by the place at which the walk meets
their first member, and loops with the same first member by the edges around them.  Where several
edges lead from one member to the next, the least way around counts, so the back edge is the first
one from the last member to the first.  The loop that is complained of is the least one that is not
controlled.
-/
namespace Workflow

/-- The finding names this loop: its members, the path around it and its back edge. -/
structure Finding.Names (f : Finding) (l : Loop) : Prop where
  nodes : f.nodes = l.nodes
  message : f.message = "Circular dependency detected: " ++ arrows l.path
  path : f.cyclePath? = some l.path
  backEdge : f.context.get? "back_edge" = some (.string l.backEdge)

namespace Definition

variable {d : Definition} {components : List (List NodeId)} {l l' : Loop}

/-! ### The least way around a loop -/

/-- The edges at these positions lead around the loop, and of all edges that do they come first in
the lexicographic order. -/
structure LeastAround (d : Definition) (positions : List Nat) (l : Loop) : Prop where
  around : d.Follows positions l.path
  least : ∀ other, d.Follows other l.path → other = positions ∨ List.Lex (· < ·) positions other

theorem LeastAround.unique {positions positions' : List Nat} (h : d.LeastAround positions l)
    (h' : d.LeastAround positions' l) : positions' = positions := by
  rcases h.least positions' h'.around with hsame | hless
  · exact hsame
  · rcases h'.least positions h.around with hsame | hmore
    · exact hsame.symm
    · exact absurd hmore (asymm hless)

/-- A loop is told before another: the walk meets its first member earlier, or their first members
are the same and the least way around it comes first in the lexicographic order. -/
def ToldBefore (d : Definition) (l l' : Loop) : Prop :=
  ∃ first first', l.nodes.head? = some first ∧ l'.nodes.head? = some first' ∧
    (d.rank first < d.rank first' ∨ first = first' ∧ ∃ positions positions',
      d.LeastAround positions l ∧ d.LeastAround positions' l' ∧
        List.Lex (· < ·) positions positions')

theorem ToldBefore.not_reversed (h : d.ToldBefore l l') : ¬ d.ToldBefore l' l := by
  intro h'
  obtain ⟨first, first', hfirst, hfirst', hless⟩ := h
  obtain ⟨second', second, hsecond', hsecond, hmore⟩ := h'
  rw [hfirst, Option.some.injEq] at hsecond
  rw [hfirst', Option.some.injEq] at hsecond'
  subst hsecond hsecond'
  rcases hless with hless | ⟨rfl, positions, positions', hleast, hleast', hless⟩
  · rcases hmore with hmore | ⟨rfl, _⟩
    · exact Nat.lt_asymm hless hmore
    · exact Nat.lt_irrefl _ hless
  · rcases hmore with hmore | ⟨_, other', other, hother', hother, hmore⟩
    · exact Nat.lt_irrefl _ hmore
    · rw [hleast.unique hother, hleast'.unique hother'] at hmore
      exact asymm hless hmore

/-! ### The loops in their order -/

theorem Components.leastAround (h : d.Components components) {c : Circuit}
    (hc : c ∈ d.toldCircuits components) : d.LeastAround c.edges (d.loopAlong c) where
  around := (h.of_mem_toldCircuits hc).2
  least _ hother := h.edges_least hc hother

theorem Components.toldBefore (h : d.Components components) {c c' : Circuit}
    (hc : c ∈ d.toldCircuits components) (hc' : c' ∈ d.toldCircuits components)
    (hbefore : d.Before c c') : d.ToldBefore (d.loopAlong c) (d.loopAlong c') := by
  have hfirst : ∀ c ∈ d.toldCircuits components, ∃ first, c.members.head? = some first := by
    intro c hc
    obtain ⟨_, first, _, hfirst, _⟩ :=
      (mem_cycles_iff.mp (h.of_mem_toldCircuits hc).1).1.closing_step
    exact ⟨first, hfirst⟩
  obtain ⟨first, hhead⟩ := hfirst c hc
  obtain ⟨first', hhead'⟩ := hfirst c' hc'
  refine ⟨first, first', hhead, hhead', ?_⟩
  rcases hbefore with hrank | ⟨hsame, hless⟩
  · left
    simpa [circuitRank, hhead, hhead'] using hrank
  · right
    rw [hhead, hhead', Option.some.injEq] at hsame
    exact ⟨hsame, c.edges, c'.edges, h.leastAround hc, h.leastAround hc', hless⟩

theorem loops_pairwise (d : Definition) : d.loops.Pairwise d.ToldBefore := by
  have h := d.components_connectedComponents
  rw [← h.survey_loops]
  refine List.pairwise_map.mpr
    ((h.circuitsOver_pairwise.sublist (d.toldCircuits_sublist _)).imp_of_mem ?_)
  intro c c' hc hc' hbefore
  exact h.toldBefore hc hc' hbefore

/-- The back edge is the first one that closes the loop. -/
theorem backEdge_first (hl : l ∈ d.loops) :
    ∃ last first, l.nodes.getLast? = some last ∧ l.nodes.head? = some first ∧
      (d.edges.find? (fun e => e.source == last && e.target == first)).map Edge.id =
        some l.backEdge := by
  obtain ⟨members, hmembers, rfl⟩ := mem_loops.mp hl
  obtain ⟨last, first, hlast, hfirst, hstep⟩ := (mem_cycles_iff.mp hmembers).1.closing_step
  obtain ⟨e, _, hedge, _⟩ := exists_edge? hstep
  refine ⟨last, first, hlast, hfirst, ?_⟩
  rw [← edge?_eq_find?]
  simp only [loopOf, hlast, hfirst, Option.bind_some, hedge, Option.map_some, Option.getD_some]

/-! ### The loop that is complained of -/

/-- The first loop that is not controlled is the least one. -/
theorem uncontrolled?_eq_some_iff :
    d.uncontrolled? = some l ↔ l ∈ d.loops ∧ l.controlled = false ∧
      ∀ l' ∈ d.loops, l'.controlled = false → l' = l ∨ d.ToldBefore l l' := by
  have hleast : ∀ first, d.uncontrolled? = some first → first.controlled = false ∧
      ∀ l' ∈ d.loops, l'.controlled = false → l' = first ∨ d.ToldBefore first l' := by
    intro first hfind
    refine ⟨by simpa using List.find?_some hfind, fun l' hl' huncontrolled => ?_⟩
    exact eq_or_rel_of_find? d.loops_pairwise hfind hl' (by simp [huncontrolled])
  constructor
  · intro hfind
    exact ⟨List.mem_of_find?_eq_some hfind, hleast l hfind⟩
  · rintro ⟨hl, huncontrolled, hbefore⟩
    cases hfind : d.uncontrolled? with
    | none =>
        rw [uncontrolled?_eq_none_iff.mp hfind l hl] at huncontrolled
        cases huncontrolled
    | some first =>
        obtain ⟨hfirst, hbefore'⟩ := hleast first hfind
        rcases hbefore' l hl huncontrolled with rfl | hlater
        · rfl
        · rcases hbefore first (List.mem_of_find?_eq_some hfind) hfirst with rfl | hlater'
          · rfl
          · exact absurd hlater' hlater.not_reversed

/-- The only error about circles names the first loop that is not controlled. -/
theorem circular_names_uncontrolled (d : Definition) (c : Catalog) :
    List.Forall₂ Finding.Names
      ((d.validate c).errors.filter (fun f => f.code == .circularDependency))
      d.uncontrolled?.toList := by
  have hother : (d.nodes.filterMap (nodeError c)).filter (fun f => f.code == .circularDependency) =
      [] := by
    rw [List.filter_eq_nil_iff]
    intro f hf
    obtain ⟨n, _, herror⟩ := List.mem_filterMap.mp hf
    rw [beq_iff_eq]
    exact code_nodeError herror
  change List.Forall₂ Finding.Names
    ((circularErrors d.loops ++ d.nodes.filterMap (nodeError c)).filter _) _
  rw [List.filter_append, hother, List.append_nil, circularErrors, uncontrolled?]
  cases d.loops.find? (fun l => !l.controlled) with
  | none => exact List.Forall₂.nil
  | some l =>
      refine List.Forall₂.cons ⟨rfl, rfl, ?_, ?_⟩ List.Forall₂.nil
      · rw [Finding.cyclePath?_addDetail_of_ne _ (by decide), Finding.cyclePath?_addDetail]
      · rw [Finding.addDetail, Table.get?_insert, if_pos rfl]

/-- Loops are told in one order.  A survey finds them in it, however the components and their
members are ordered: by the place at which the walk meets the first member, and among loops with the
same first member by the least way around them.  The back edge of a loop is the first edge from its
last member to its first.  So the first loop that is not controlled is the least of these in the
order, and the one error about circles names it. -/
theorem loops_are_told_in_order (h : d.Components components) :
    (d.survey components).loops = d.loops ∧ d.loops.Pairwise d.ToldBefore ∧
    (∀ l ∈ d.loops, ∃ last first, l.nodes.getLast? = some last ∧ l.nodes.head? = some first ∧
      (d.edges.find? (fun e => e.source == last && e.target == first)).map Edge.id =
        some l.backEdge) ∧
    (∀ l, d.uncontrolled? = some l ↔ l ∈ d.loops ∧ l.controlled = false ∧
      ∀ l' ∈ d.loops, l'.controlled = false → l' = l ∨ d.ToldBefore l l') ∧
    ∀ c, List.Forall₂ Finding.Names
      ((d.validate c).errors.filter (fun f => f.code == .circularDependency))
      d.uncontrolled?.toList :=
  ⟨h.survey_loops, d.loops_pairwise, fun _ hl => backEdge_first hl,
    fun _ => uncontrolled?_eq_some_iff, d.circular_names_uncontrolled⟩

/-- Though the components come the other way round, the loop of two members is told first, with the
first of the two edges that close it, and the error names the other loop. -/
theorem twinLoops_told_in_order :
    twinLoops.Components [["d"], ["c", "b", "a"]] ∧
    (twinLoops.survey [["d"], ["c", "b", "a"]]).loops.map (fun l => (l.nodes, l.backEdge)) =
      [(["a", "b"], "e2"), (["a", "b", "c"], "e5")] ∧
    (twinLoops.uncontrolled?.map Loop.nodes) = some ["a", "b", "c"] ∧
    List.Forall₂ Finding.Names
      ((twinLoops.validate bareKinds).errors.filter (fun f => f.code == .circularDependency))
      twinLoops.uncontrolled?.toList := by
  have hcomponents : twinLoops.Components [["d"], ["c", "b", "a"]] :=
    Components.of_perm (by decide) (of_decide_eq_true (by cbv))
  obtain ⟨hloops, _, _, _, hnames⟩ := loops_are_told_in_order hcomponents
  refine ⟨hcomponents, ?_, by cbv, hnames bareKinds⟩
  rw [hloops]
  cbv

end Definition
end Workflow
