import Mathlib.Data.List.Nodup
import Workflow.Graph.Tally
import Workflow.Proofs.Graph.Order
import Workflow.Proofs.Table
/-!
# Counting finds the order

Counting the edges that are still to be followed never breaks down, and it takes the nodes in the
order in which they are taken by looking at predecessors: the count of a node is at all times the
number of edges that lead to it from nodes not taken yet, so a node is ready when its predecessors
are all taken.
-/
namespace Workflow
namespace Tally

variable {t : Tally}

@[simp] theorem get?_counts_lower (t : Tally) (target : NodeId) (left : Nat) (v : NodeId) :
    (t.lower target left).counts.get? v = if v = target then some left else t.counts.get? v :=
  Table.get?_insert t.counts target left v

@[simp] theorem mem_ready_lower {target : NodeId} {left : Nat} {v : NodeId} :
    v ∈ (t.lower target left).ready ↔ v ∈ t.ready ∨ v = target ∧ left = 0 := by
  by_cases hleft : left = 0
  · simp [lower, hleft, or_comm]
  · simp [lower, hleft]

theorem nodup_ready_lower {target : NodeId} {left : Nat} (h : t.ready.Nodup) :
    (t.lower target left).ready.Nodup := by
  by_cases hleft : left = 0
  · simp [lower, hleft, h.insert]
  · simp [lower, hleft, h]

/-- Following the edges to some nodes takes their counts down to `base`, if they were above that by
one for each edge, and what comes down to zero is ready. -/
theorem foldlM_follow {base : NodeId → Nat} {targets : List NodeId}
    (hcounts : ∀ v ∈ targets, t.counts.get? v = some (base v + targets.count v)) :
    ∃ t', targets.foldlM follow t = some t' ∧
      (∀ v, t'.counts.get? v = if v ∈ targets then some (base v) else t.counts.get? v) ∧
      (∀ v, v ∈ t'.ready ↔ v ∈ t.ready ∨ v ∈ targets ∧ base v = 0) ∧
      (t.ready.Nodup → t'.ready.Nodup) := by
  induction targets generalizing t with
  | nil => exact ⟨t, rfl, by simp, by simp, id⟩
  | cons target targets ih =>
      have hleft : t.counts.get? target = some (base target + targets.count target + 1) := by
        rw [hcounts target List.mem_cons_self, List.count_cons_self]
        rfl
      have hfollow :
          t.follow target = some (t.lower target (base target + targets.count target)) := by
        simp only [follow, hleft]
      have hcounts' : ∀ v ∈ targets,
          (t.lower target (base target + targets.count target)).counts.get? v =
            some (base v + targets.count v) := by
        intro v hv
        by_cases hsame : v = target
        · simp [hsame]
        · simp [hsame, hcounts v (List.mem_cons_of_mem target hv), Ne.symm hsame]
      obtain ⟨t', hfold, hleft', hready, hnodup⟩ := ih hcounts'
      refine ⟨t', ?_, ?_, ?_, fun h => hnodup (nodup_ready_lower h)⟩
      · rw [List.foldlM_cons, hfollow]
        exact hfold
      · intro v
        by_cases hmem : v ∈ targets
        · simp [hleft', hmem]
        · by_cases hsame : v = target
          · simp [hleft', hsame, List.count_eq_zero_of_not_mem (hsame ▸ hmem)]
          · simp [hleft', hmem, hsame]
      · intro v
        rw [hready, mem_ready_lower]
        by_cases hsame : v = target
        · subst hsame
          by_cases hmem : v ∈ targets
          · simp only [hmem, true_and, List.mem_cons, or_true, Nat.add_eq_zero_iff]
            tauto
          · simp [hmem, List.count_eq_zero_of_not_mem hmem]
        · simp [hsame]

/-! ### What is counted -/

/-- The number of edges that lead to the node from nodes that remain. -/
def coming (edges : List Edge) (remaining : List NodeId) (v : NodeId) : Nat :=
  edges.countP (fun e => e.target == v && remaining.contains e.source)

variable {edges : List Edge} {remaining : List NodeId}

theorem coming_eq_zero_iff {v : NodeId} :
    coming edges remaining v = 0 ↔ ∀ u ∈ Definition.sourcesOf edges v, u ∉ remaining := by
  simp only [coming, List.countP_eq_zero, Definition.mem_sourcesOf, Leads, Bool.and_eq_true,
    beq_iff_eq, List.contains_iff_mem, not_and]
  constructor
  · rintro h u ⟨e, he, rfl, htarget⟩
    exact h e he htarget
  · intro h e he htarget
    exact h e.source ⟨e, he, rfl, htarget⟩

theorem mem_targetsOf {u v : NodeId} : v ∈ targetsOf edges u ↔ Leads edges u v := by
  simp only [targetsOf, List.mem_map, List.mem_filter, beq_iff_eq, Leads, and_assoc]

theorem coming_cons (e : Edge) (edges : List Edge) (remaining : List NodeId) (v : NodeId) :
    coming (e :: edges) remaining v =
      coming edges remaining v + if e.target = v ∧ e.source ∈ remaining then 1 else 0 := by
  simp [coming, List.countP_cons]

theorem targetsOf_cons (e : Edge) (edges : List Edge) (v : NodeId) :
    targetsOf (e :: edges) v =
      if e.source = v then e.target :: targetsOf edges v else targetsOf edges v := by
  by_cases hsource : e.source = v
  · simp [targetsOf, hsource]
  · simp [targetsOf, hsource]

/-- When a node is taken, the edges that leave it are no longer to come. -/
theorem coming_erase (hnodup : remaining.Nodup) {v : NodeId} (hv : v ∈ remaining) (w : NodeId) :
    coming edges remaining w =
      coming edges (remaining.erase v) w + (targetsOf edges v).count w := by
  induction edges with
  | nil => rfl
  | cons e edges ih =>
      rw [coming_cons, coming_cons, targetsOf_cons, ih]
      by_cases hsource : e.source = v
      · have hhere : e.source ∈ remaining := hsource ▸ hv
        have hgone : e.source ∉ remaining.erase v := by
          rw [hsource, hnodup.mem_erase_iff]
          exact fun h => h.1 rfl
        simp only [hhere, hgone, if_pos hsource, List.count_cons, beq_iff_eq, and_true, and_false,
          if_false]
        omega
      · simp only [List.mem_erase_of_ne hsource, if_neg hsource]
        omega

/-- The tally counts what is still to come, while the nodes of `remaining` are not taken yet. -/
structure Fits (nodes : List NodeId) (edges : List Edge) (remaining : List NodeId) (t : Tally) :
    Prop where
  counts : ∀ v ∈ nodes, t.counts.get? v = some (coming edges remaining v)
  ready : ∀ v, v ∈ t.ready ↔ v ∈ remaining ∧ coming edges remaining v = 0
  ready_nodup : t.ready.Nodup
  taken : ∀ v, v ∉ remaining → coming edges remaining v = 0

variable {nodes : List NodeId}

/-- The edges that leave a ready node lead to other nodes that remain. -/
theorem Fits.target_remains (h : t.Fits nodes edges remaining) (hnodup : remaining.Nodup)
    {v w : NodeId} (hv : v ∈ t.ready) (hw : w ∈ targetsOf edges v) : w ∈ remaining.erase v := by
  obtain ⟨hremaining, hzero⟩ := (h.ready v).mp hv
  have hpos := List.count_pos_iff.mpr hw
  have hsplit : coming edges remaining w =
      coming edges (remaining.erase v) w + (targetsOf edges v).count w :=
    coming_erase hnodup hremaining w
  rw [hnodup.mem_erase_iff]
  constructor
  · rintro rfl
    omega
  · by_contra hgone
    have hnone := h.taken w hgone
    omega

/-- Taking a ready node and following its edges does not break down, and the counts are right
again. -/
theorem Fits.take (h : t.Fits nodes edges remaining) (hnodup : remaining.Nodup)
    (hedges : ∀ e ∈ edges, e.target ∈ nodes) {v : NodeId} (hv : v ∈ t.ready) :
    ∃ t', (targetsOf edges v).foldlM follow { t with ready := t.ready.erase v } = some t' ∧
      t'.Fits nodes edges (remaining.erase v) := by
  obtain ⟨hremaining, hzero⟩ := (h.ready v).mp hv
  have herase : ∀ w, coming edges remaining w =
      coming edges (remaining.erase v) w + (targetsOf edges v).count w :=
    coming_erase hnodup hremaining
  have hdeclared : ∀ w ∈ targetsOf edges v, w ∈ nodes := by
    intro w hw
    obtain ⟨e, he, _, rfl⟩ := mem_targetsOf.mp hw
    exact hedges e he
  have habove : ∀ w ∈ targetsOf edges v, t.counts.get? w =
      some (coming edges (remaining.erase v) w + (targetsOf edges v).count w) := by
    intro w hw
    rw [← herase w]
    exact h.counts w (hdeclared w hw)
  obtain ⟨t', hfold, hcounts, hready, hready_nodup⟩ :=
    foldlM_follow (t := { t with ready := t.ready.erase v }) habove
  refine ⟨t', hfold, ?_, ?_, hready_nodup (h.ready_nodup.erase v), ?_⟩
  · intro w hw
    by_cases hmem : w ∈ targetsOf edges v
    · rw [hcounts, if_pos hmem]
    · have hsame := herase w
      rw [List.count_eq_zero_of_not_mem hmem, Nat.add_zero] at hsame
      rw [hcounts, if_neg hmem, ← hsame]
      exact h.counts w hw
  · intro w
    rw [hready, h.ready_nodup.mem_erase_iff, hnodup.mem_erase_iff, h.ready]
    have hsplit := herase w
    constructor
    · rintro (⟨hne, hmem, hnone⟩ | ⟨hmem, hnone⟩)
      · exact ⟨⟨hne, hmem⟩, by omega⟩
      · exact ⟨hnodup.mem_erase_iff.mp (h.target_remains hnodup hv hmem), hnone⟩
    · rintro ⟨⟨hne, hmem⟩, hnone⟩
      by_cases htarget : w ∈ targetsOf edges v
      · exact Or.inr ⟨htarget, hnone⟩
      · rw [List.count_eq_zero_of_not_mem htarget] at hsplit
        exact Or.inl ⟨hne, hmem, by omega⟩
  · intro w hw
    have hsplit := herase w
    by_cases hsame : w = v
    · subst hsame
      omega
    · have hgone : w ∉ remaining := fun hmem => hw ((List.mem_erase_of_ne hsame).mpr hmem)
      have hnone := h.taken w hgone
      omega

/-- The ready node that takes precedence is the first of the remaining nodes none of whose
predecessors remains. -/
theorem Fits.find? {precedence : List NodeId} (h : t.Fits nodes edges remaining)
    (hnodup : precedence.Nodup) (hsub : remaining.Sublist precedence) :
    precedence.find? (fun v => t.ready.contains v) =
      remaining.find? (fun v => (Definition.sourcesOf edges v).all (fun p => p ∉ remaining)) := by
  have hready : ∀ v ∈ precedence, t.ready.contains v = true → v ∈ remaining :=
    fun v _ hv => ((h.ready v).mp (List.contains_iff_mem.mp hv)).1
  rw [← List.head?_filter, filter_eq_of_sublist hsub hnodup hready, ← List.head?_filter]
  congr 1
  apply List.filter_congr
  intro v hv
  rw [Bool.eq_iff_iff, List.contains_iff_mem, h.ready, coming_eq_zero_iff]
  simp [hv]

/-- What remains when no node is ready still has edges to come. -/
theorem Fits.coming_pos_iff (h : t.Fits nodes edges remaining)
    (hnone : remaining.find? (fun v =>
      (Definition.sourcesOf edges v).all (fun p => p ∉ remaining)) = none) {v : NodeId} :
    0 < coming edges remaining v ↔ v ∈ remaining := by
  constructor
  · intro hpos
    by_contra hgone
    rw [h.taken v hgone] at hpos
    exact Nat.lt_irrefl 0 hpos
  · intro hv
    apply Nat.pos_of_ne_zero
    intro hzero
    have hheld := List.find?_eq_none.mp hnone v hv
    simp only [List.all_eq_true, decide_eq_true_eq] at hheld
    exact hheld (coming_eq_zero_iff.mp hzero)

/-- Counting takes the same nodes in the same order as looking at predecessors does, and in the end
the counts above zero are those of the nodes that are stuck. -/
theorem takeAll_eq_arrange {precedence : List NodeId} (hnodup : precedence.Nodup)
    (hedges : ∀ e ∈ edges, e.target ∈ nodes) (hsub : remaining.Sublist precedence)
    (h : t.Fits nodes edges remaining) :
    ∃ left, takeAll precedence (targetsOf edges) t =
        some ((arrange (Definition.sourcesOf edges) remaining).1, left) ∧
      ∀ v ∈ nodes, (0 < (left.get? v).getD 0 ↔
        v ∈ (arrange (Definition.sourcesOf edges) remaining).2) := by
  fun_induction arrange (Definition.sourcesOf edges) remaining generalizing t with
  | case1 remaining hfind =>
      refine ⟨t.counts, ?_, ?_⟩
      · rw [takeAll, h.find? hnodup hsub, hfind]
      · intro v hv
        rw [h.counts v hv, Option.getD_some]
        exact h.coming_pos_iff hfind
  | case2 remaining v hfind hv _ order stuck heq ih =>
      have hfirst := (h.find? hnodup hsub).trans hfind
      have hready : v ∈ t.ready := by simpa using List.find?_some hfirst
      obtain ⟨t', hfold, hfits⟩ := h.take (hnodup.sublist hsub) hedges hready
      obtain ⟨left, htaken, hleft⟩ := ih (List.erase_sublist.trans hsub) hfits
      rw [heq] at htaken hleft
      refine ⟨left, ?_, hleft⟩
      rw [takeAll, hfirst]
      dsimp only
      rw [hfold]
      dsimp only
      rw [htaken]
      rfl

end Tally

namespace Definition

variable {d : Definition}

/-- Before any edge is followed, the counts are right, all nodes remaining. -/
theorem fits_tally (d : Definition) {edges : List Edge} (hedges : ∀ e ∈ edges, e ∈ d.edges) :
    (d.tally edges).Fits d.ids edges d.byPrecedence := by
  have hremain : ∀ {v}, v ∈ d.byPrecedence ↔ v ∈ d.ids := d.byPrecedence_perm.mem_iff
  have hsource : ∀ e ∈ edges, e.source ∈ d.byPrecedence := fun e he =>
    hremain.mpr (d.ends_declared e (hedges e he)).1
  have hcoming : ∀ v, edges.countP (fun e => e.target == v) =
      Tally.coming edges d.byPrecedence v := by
    intro v
    apply List.countP_congr
    intro e he
    simp [hsource e he]
  have hcounts : ∀ v, (d.tally edges).counts.get? v =
      if v ∈ d.ids then some (Tally.coming edges d.byPrecedence v) else none := by
    intro v
    rw [tally, Table.get?_ofList_map d.ids (fun id => edges.countP (fun e => e.target == id)),
      hcoming]
  refine ⟨?_, ?_, d.ids_nodup.filter _, ?_⟩
  · intro v hv
    rw [hcounts, if_pos hv]
  · intro v
    change v ∈ d.ids.filter (fun id => (d.tally edges).counts.get? id == some 0) ↔ _
    rw [List.mem_filter, hremain, hcounts]
    by_cases hv : v ∈ d.ids
    · simp [hv]
    · simp [hv]
  · intro v hgone
    rw [Tally.coming_eq_zero_iff]
    intro u hu
    obtain ⟨e, he, _, rfl⟩ := mem_sourcesOf.mp hu
    exact absurd (hremain.mpr (d.ends_declared e (hedges e he)).2) hgone

/-- Counting never breaks down, and gives the same order or the same nodes that cannot be
arranged. -/
theorem countedOrder_eq {edges : List Edge} (hedges : ∀ e ∈ edges, e ∈ d.edges) :
    d.countedOrder edges = some (d.orderAlong edges) := by
  have htargets : ∀ e ∈ edges, e.target ∈ d.ids := fun e he =>
    (d.ends_declared e (hedges e he)).2
  obtain ⟨left, htaken, hleft⟩ := Tally.takeAll_eq_arrange
    (d.byPrecedence_perm.nodup_iff.mpr d.ids_nodup) htargets (List.Sublist.refl _)
    (d.fits_tally hedges)
  have hlength := (arrange_perm (sourcesOf edges) d.byPrecedence).length_eq
  rw [List.length_append, d.byPrecedence_perm.length_eq] at hlength
  rw [countedOrder, htaken, orderAlong, Option.map_some]
  cases harrange : arrange (sourcesOf edges) d.byPrecedence with
  | mk order stuck =>
      rw [harrange] at hleft hlength
      cases stuck with
      | nil =>
          have hall : ¬ order.length < d.ids.length := by
            simp only [List.length_nil, Nat.add_zero] at hlength
            omega
          simp only [if_neg hall]
      | cons v stuck =>
          have hless : order.length < d.ids.length := by
            simp only [List.length_cons] at hlength
            omega
          simp only [if_pos hless]
          congr 2
          apply List.filter_congr
          intro w hw
          rw [Bool.eq_iff_iff, decide_eq_true_eq, hleft w hw, List.contains_iff_mem]

end Definition
end Workflow
