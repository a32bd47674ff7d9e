import Mathlib.Data.List.Cycle
import Mathlib.Data.List.NodupEquivFin
import Mathlib.Logic.Relation
/-!
# Simple cycles

A simple cycle of a relation is given by the list of its members.  Which member comes first does not
matter, so two lists tell of the same cycle when one is a rotation of the other.  A finite list in
which every node has a predecessor contains a simple cycle.
-/
namespace Workflow

universe u

variable {V : Type u} {r : V → V → Prop}

/-- A simple cycle: the members differ, each is related to the next and the last to the first. -/
structure IsCycle (r : V → V → Prop) (members : List V) : Prop where
  ne_nil : members ≠ []
  nodup : members.Nodup
  closed : List.IsChain r (members ++ members.head?.toList)

theorem isCycle_cons_iff {v : V} {rest : List V} :
    IsCycle r (v :: rest) ↔ (v :: rest).Nodup ∧ List.IsChain r (v :: rest ++ [v]) := by
  constructor
  · intro h
    exact ⟨h.nodup, h.closed⟩
  · rintro ⟨hnodup, hclosed⟩
    exact ⟨List.cons_ne_nil v rest, hnodup, hclosed⟩

instance [DecidableEq V] [DecidableRel r] (members : List V) : Decidable (IsCycle r members) :=
  decidable_of_iff
    (members ≠ [] ∧ members.Nodup ∧ List.IsChain r (members ++ members.head?.toList))
    ⟨fun ⟨hne, hnodup, hclosed⟩ => ⟨hne, hnodup, hclosed⟩,
      fun h => ⟨h.ne_nil, h.nodup, h.closed⟩⟩

theorem isCycle_iff_chain {members : List V} :
    IsCycle r members ↔
      members ≠ [] ∧ members.Nodup ∧ Cycle.Chain r (members : Cycle V) := by
  cases members with
  | nil => exact ⟨fun h => absurd rfl h.ne_nil, fun h => absurd rfl h.1⟩
  | cons v rest =>
      rw [isCycle_cons_iff, Cycle.chain_coe_cons, List.cons_append]
      simp only [ne_eq, reduceCtorEq, not_false_eq_true, true_and]

/-- The first node of a chain leads to all the others. -/
theorem reflTransGen_of_isChain_cons {u v : V} {rest : List V}
    (hchain : List.IsChain r (u :: rest)) (hv : v ∈ u :: rest) :
    Relation.ReflTransGen r u v := by
  induction rest generalizing u with
  | nil =>
      obtain rfl := List.mem_singleton.mp hv
      exact Relation.ReflTransGen.refl
  | cons w rest ih =>
      obtain ⟨hstep, htail⟩ := List.isChain_cons_cons.mp hchain
      rcases List.mem_cons.mp hv with rfl | hv
      · exact Relation.ReflTransGen.refl
      · exact Relation.ReflTransGen.head hstep (ih htail hv)

/-- A list is a chain when all its pairs of neighbours are related. -/
theorem isChain_iff_forall_mem_zip_tail {l : List V} :
    List.IsChain r l ↔ ∀ p ∈ l.zip l.tail, r p.1 p.2 := by
  induction l with
  | nil => simp
  | cons v rest ih =>
      cases rest with
      | nil => simp
      | cons w rest =>
          rw [List.isChain_cons_cons, ih]
          simp only [List.tail_cons, List.zip_cons_cons, List.mem_cons, forall_eq_or_imp]

/-- The pairs of neighbours of a list. -/
theorem mem_zip_tail_iff {l : List V} {u v : V} :
    (u, v) ∈ l.zip l.tail ↔ ∃ before after, l = before ++ u :: v :: after := by
  induction l with
  | nil => simp
  | cons w rest ih =>
      cases rest with
      | nil =>
          refine iff_of_false (by simp) ?_
          rintro ⟨before, after, hsplit⟩
          have hlength := congrArg List.length hsplit
          simp only [List.length_append, List.length_cons, List.length_nil] at hlength
          omega
      | cons x rest =>
          rw [List.tail_cons, List.zip_cons_cons, List.mem_cons]
          constructor
          · rintro (heq | hmem)
            · obtain ⟨rfl, rfl⟩ := Prod.mk.inj heq
              exact ⟨[], rest, rfl⟩
            · obtain ⟨before, after, hsplit⟩ := ih.mp hmem
              exact ⟨w :: before, after, by rw [hsplit, List.cons_append]⟩
          · rintro ⟨before, after, hsplit⟩
            cases before with
            | nil =>
                obtain ⟨rfl, hrest⟩ := List.cons.inj hsplit
                obtain ⟨rfl, _⟩ := List.cons.inj hrest
                exact Or.inl rfl
            | cons y before =>
                obtain ⟨_, hrest⟩ := List.cons.inj hsplit
                exact Or.inr (ih.mpr ⟨before, after, hrest⟩)

/-- A rotation puts a later part of the list before an earlier one. -/
theorem exists_split_of_isRotated {l l' : List V} (h : l ~r l') :
    ∃ front back, l = front ++ back ∧ l' = back ++ front := by
  obtain ⟨n, hn, rfl⟩ := List.isRotated_iff_mod.mp h
  exact ⟨l.take n, l.drop n, (List.take_append_drop n l).symm, List.rotate_eq_drop_append_take hn⟩

namespace IsCycle

/-- A cycle may be told from any of its members. -/
theorem rotate {members members' : List V} (h : IsCycle r members)
    (hrotated : members ~r members') : IsCycle r members' := by
  rw [isCycle_iff_chain] at h ⊢
  obtain ⟨hne, hnodup, hchain⟩ := h
  refine ⟨?_, hrotated.nodup_iff.mp hnodup, ?_⟩
  · rintro rfl
    exact hne (List.isRotated_nil_iff.mp hrotated)
  · rw [← Cycle.coe_eq_coe.mpr hrotated]
    exact hchain

theorem imp {r' : V → V → Prop} (himp : ∀ u v, r u v → r' u v) {members : List V}
    (h : IsCycle r members) : IsCycle r' members :=
  ⟨h.ne_nil, h.nodup, h.closed.imp himp⟩

/-- What holds of all members may be asked of the nodes that the steps lead to. -/
theorem within {P : V → Prop} {members : List V} (h : IsCycle r members)
    (hmembers : ∀ v ∈ members, P v) : IsCycle (fun u v => r u v ∧ P v) members := by
  refine ⟨h.ne_nil, h.nodup, isChain_iff_forall_mem_zip_tail.mpr fun p hp => ?_⟩
  refine ⟨isChain_iff_forall_mem_zip_tail.mp h.closed p hp, hmembers p.2 ?_⟩
  rcases List.mem_append.mp (List.mem_of_mem_tail (List.of_mem_zip hp).2) with hmem | hmem
  · exact hmem
  · exact List.mem_of_head? (Option.mem_toList.mp hmem)

theorem exists_rotation {members : List V} {v : V} (hv : v ∈ members) :
    ∃ rest, members ~r v :: rest := by
  obtain ⟨before, after, rfl⟩ := List.append_of_mem hv
  exact ⟨after ++ before, List.isRotated_append⟩

/-- The step that closes a cycle. -/
theorem closing_step {members : List V} (h : IsCycle r members) :
    ∃ last first, members.getLast? = some last ∧ members.head? = some first ∧ r last first := by
  cases members with
  | nil => exact absurd rfl h.ne_nil
  | cons v rest =>
      have hchain := (isCycle_cons_iff.mp h).2
      obtain ⟨front, last, hfront⟩ :=
        (List.eq_nil_or_concat' (v :: rest)).resolve_left (List.cons_ne_nil v rest)
      refine ⟨last, v, ?_, rfl, ?_⟩
      · rw [hfront, List.getLast?_append, List.getLast?_singleton]
        rfl
      · rw [hfront, List.append_assoc, List.singleton_append] at hchain
        exact (List.isChain_append_cons_cons.mp hchain).2.1

/-- Every member of a cycle leads to every other one. -/
theorem reaches {members : List V} (h : IsCycle r members) {u v : V} (hu : u ∈ members)
    (hv : v ∈ members) : Relation.ReflTransGen r u v := by
  obtain ⟨rest, hrotated⟩ := exists_rotation hu
  have hchain := (isCycle_cons_iff.mp (h.rotate hrotated)).2
  have hv' : v ∈ u :: rest := hrotated.mem_iff.mp hv
  exact reflTransGen_of_isChain_cons hchain (List.mem_append_left [u] hv')

/-- Every member of a cycle follows another one. -/
theorem exists_pred {members : List V} (h : IsCycle r members) {v : V} (hv : v ∈ members) :
    ∃ u ∈ members, r u v := by
  obtain ⟨rest, hrotated⟩ := exists_rotation hv
  obtain ⟨last, first, hlast, hfirst, hstep⟩ := (h.rotate hrotated).closing_step
  obtain rfl := Option.some.inj hfirst
  exact ⟨last, hrotated.mem_iff.mpr (List.mem_of_getLast? hlast), hstep⟩

/-- Two tellings of one cycle that start at the same member are the same. -/
theorem eq_of_isRotated {v : V} {rest rest' : List V} (hnodup : (v :: rest).Nodup)
    (hrotated : (v :: rest) ~r (v :: rest')) : rest = rest' := by
  obtain ⟨n, hn, hrotate⟩ := List.isRotated_iff_mod.mp hrotated
  rcases Nat.lt_or_eq_of_le hn with hlt | rfl
  · have hhead : (v :: rest)[n]? = (v :: rest)[0]? := by
      rw [← List.head?_rotate hlt, hrotate]
      rfl
    have hzero : n = 0 := by
      by_contra hpos
      exact List.nodup_iff_getElem?_ne_getElem?.mp hnodup 0 n (Nat.pos_of_ne_zero hpos) hlt
        hhead.symm
    subst hzero
    rw [List.rotate_zero] at hrotate
    exact (List.cons.inj hrotate).2
  · rw [List.rotate_length] at hrotate
    exact (List.cons.inj hrotate).2

/-- The steps of a cycle are the pairs that it may be told from, unless nodes lead to themselves. -/
theorem mem_steps_iff (hends : ∀ v, ¬ r v v) {members : List V} (h : IsCycle r members)
    {u v : V} :
    (u, v) ∈ (members ++ members.head?.toList).zip (members ++ members.head?.toList).tail ↔
      ∃ rest, members ~r u :: v :: rest := by
  obtain ⟨w, rest, rfl⟩ := List.exists_cons_of_ne_nil h.ne_nil
  rw [mem_zip_tail_iff, List.head?_cons, Option.toList_some]
  constructor
  · rintro ⟨before, after, hsplit⟩
    rcases List.eq_nil_or_concat' after with rfl | ⟨after, x, rfl⟩
    · -- the step back to the first member
      rw [List.append_cons before u [v]] at hsplit
      obtain ⟨hmembers, hlast⟩ := List.append_inj' hsplit rfl
      obtain rfl := List.singleton_inj.mp hlast
      cases before with
      | nil =>
          rw [hmembers] at h
          exact absurd (List.isChain_pair.mp h.closed) (hends _)
      | cons x before =>
          obtain ⟨rfl, rfl⟩ := List.cons.inj hmembers
          have hturned : (w :: before ++ [u]) ~r ([u] ++ w :: before) := List.isRotated_append
          exact ⟨before, hturned⟩
    · have hinner : w :: rest ++ [w] = before ++ u :: v :: after ++ [x] := by
        rw [hsplit, List.append_assoc, List.cons_append, List.cons_append]
      rw [(List.append_inj' hinner rfl).1]
      exact ⟨after ++ before, List.isRotated_append⟩
  · rintro ⟨after, hrotated⟩
    obtain ⟨front, back, hmembers, hturned⟩ := exists_split_of_isRotated hrotated
    rcases back with _ | ⟨x, _ | ⟨y, back⟩⟩
    · rw [List.append_nil] at hmembers
      rw [hmembers, ← List.nil_append front, ← hturned]
      exact ⟨[], after ++ [w], rfl⟩
    · obtain ⟨rfl, rfl⟩ := List.cons.inj hturned
      obtain ⟨rfl, _⟩ := List.cons.inj hmembers
      exact ⟨w :: after, [], by rw [hmembers, List.append_assoc]; rfl⟩
    · obtain ⟨rfl, hrest⟩ := List.cons.inj hturned
      obtain ⟨rfl, _⟩ := List.cons.inj hrest
      refine ⟨front, back ++ [w], ?_⟩
      rw [hmembers, List.append_assoc]
      rfl
end IsCycle

/-- A node that can be reached can be reached by a path that passes no node twice. -/
theorem exists_nodup_path {u v : V} (h : Relation.ReflTransGen r u v) :
    ∃ rest, (u :: rest).Nodup ∧ List.IsChain r (u :: rest) ∧ (u :: rest).getLast? = some v := by
  induction h using Relation.ReflTransGen.head_induction_on with
  | refl => exact ⟨[], List.nodup_singleton v, List.isChain_singleton v, rfl⟩
  | @head u w hstep _ ih =>
      obtain ⟨rest, hnodup, hchain, hlast⟩ := ih
      by_cases hu : u ∈ w :: rest
      · -- The path has been at `u` before, so what comes after that is a path from `u`.
        obtain ⟨before, after, hsplit⟩ := List.append_of_mem hu
        rw [hsplit] at hnodup hchain hlast
        refine ⟨after, hnodup.sublist (List.sublist_append_right _ _),
          (List.isChain_append.mp hchain).2.1, ?_⟩
        rw [List.getLast?_append_cons] at hlast
        exact hlast
      · refine ⟨w :: rest, List.nodup_cons.mpr ⟨hu, hnodup⟩,
          List.isChain_cons_cons.mpr ⟨hstep, hchain⟩, ?_⟩
        rw [List.getLast?_cons_cons]
        exact hlast

/-- A step from which there is a way back closes a cycle. -/
theorem exists_isCycle_closed_by {u v : V} (hstep : r u v) (hback : Relation.ReflTransGen r v u) :
    ∃ rest, IsCycle r (v :: rest) ∧ (v :: rest).getLast? = some u := by
  obtain ⟨rest, hnodup, hchain, hlast⟩ := exists_nodup_path hback
  refine ⟨rest, isCycle_cons_iff.mpr ⟨hnodup, ?_⟩, hlast⟩
  refine List.isChain_append.mpr ⟨hchain, List.isChain_singleton v, ?_⟩
  intro x hx y hy
  rw [hlast] at hx
  obtain rfl := Option.some.inj hx
  obtain rfl := Option.some.inj hy
  exact hstep

/-- So it is part of a cycle. -/
theorem exists_isCycle_of_step {u v : V} (hstep : r u v) (hback : Relation.ReflTransGen r v u) :
    ∃ members, IsCycle r members ∧ u ∈ members ∧ v ∈ members := by
  obtain ⟨rest, hcycle, hlast⟩ := exists_isCycle_closed_by hstep hback
  exact ⟨v :: rest, hcycle, List.mem_of_getLast? hlast, List.mem_cons_self⟩

/-- A path that returns to one of its nodes contains a cycle. -/
theorem exists_isCycle_of_mem_path {v u : V} {rest : List V} (hnodup : (v :: rest).Nodup)
    (hchain : List.IsChain r (v :: rest)) (hstep : r u v) (hu : u ∈ v :: rest) :
    ∃ members, IsCycle r members ∧ ∀ w ∈ members, w ∈ v :: rest := by
  obtain ⟨before, after, hsplit⟩ := List.append_of_mem hu
  rw [hsplit] at hnodup hchain ⊢
  have hprefix : List.IsChain r (before ++ [u]) := (List.isChain_split.mp hchain).1
  refine ⟨u :: before, isCycle_cons_iff.mpr ⟨?_, ?_⟩, ?_⟩
  · have hsub : (before ++ [u]).Sublist (before ++ u :: after) :=
      List.Sublist.append_left (List.singleton_sublist.mpr List.mem_cons_self) before
    exact (List.perm_append_singleton u before).nodup_iff.mp (hnodup.sublist hsub)
  · cases before with
    | nil =>
        obtain rfl : v = u := (List.cons.inj hsplit).1
        exact List.isChain_pair.mpr hstep
    | cons w before =>
        obtain rfl : v = w := (List.cons.inj hsplit).1
        exact List.isChain_cons_cons.mpr ⟨hstep, hprefix⟩
  · intro w hw
    rcases List.mem_cons.mp hw with rfl | hw
    · exact List.mem_append_right before List.mem_cons_self
    · exact List.mem_append_left _ hw

/-- Walking backwards through a finite list in which every node has a predecessor, one meets a node
again at the latest when the list is used up. -/
theorem exists_isCycle_of_path {nodes : List V} (hpred : ∀ v ∈ nodes, ∃ u ∈ nodes, r u v)
    (room : Nat) {v : V} {rest : List V} (hnodup : (v :: rest).Nodup)
    (hchain : List.IsChain r (v :: rest)) (hsub : ∀ w ∈ v :: rest, w ∈ nodes)
    (hroom : nodes.length < (v :: rest).length + room) :
    ∃ members, IsCycle r members ∧ ∀ w ∈ members, w ∈ nodes := by
  induction room generalizing v rest with
  | zero =>
      have hle : (v :: rest).length ≤ nodes.length :=
        (List.subperm_of_subset hnodup hsub).length_le
      omega
  | succ room ih =>
      obtain ⟨u, hu, hstep⟩ := hpred v (hsub v List.mem_cons_self)
      by_cases hmem : u ∈ v :: rest
      · obtain ⟨members, hcycle, hmembers⟩ :=
          exists_isCycle_of_mem_path hnodup hchain hstep hmem
        exact ⟨members, hcycle, fun w hw => hsub w (hmembers w hw)⟩
      · have hsub' : ∀ w ∈ u :: v :: rest, w ∈ nodes := by
          intro w hw
          rcases List.mem_cons.mp hw with rfl | hw
          · exact hu
          · exact hsub w hw
        apply ih (List.nodup_cons.mpr ⟨hmem, hnodup⟩)
          (List.isChain_cons_cons.mpr ⟨hstep, hchain⟩) hsub'
        rw [List.length_cons]
        omega

/-- A finite list of nodes, each of which has a predecessor in the list, contains a cycle. -/
theorem exists_isCycle_of_forall_pred {nodes : List V} (hne : nodes ≠ [])
    (hpred : ∀ v ∈ nodes, ∃ u ∈ nodes, r u v) :
    ∃ members, IsCycle r members ∧ ∀ w ∈ members, w ∈ nodes := by
  obtain ⟨v, hv⟩ := List.exists_mem_of_ne_nil nodes hne
  apply exists_isCycle_of_path hpred nodes.length (List.nodup_singleton v)
    (List.isChain_singleton v)
  · intro w hw
    obtain rfl := List.mem_singleton.mp hw
    exact hv
  · rw [List.length_singleton]
    omega

end Workflow
