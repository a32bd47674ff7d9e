import Workflow.Plan
import Workflow.Proofs.Graph.Order
import Workflow.Proofs.Table
/-!
# Plans and their validation

Validation and ordering agree: a definition passes the checks on its loops exactly when it can be
ordered, so the ordering never fails once the validation has passed.  What a plan knows about its
nodes is right: one node precedes another when a path of forward edges leads from it to the other,
and the order of the plan respects that.
-/
namespace Workflow

open Relation

variable {d : Definition}

namespace Definition

/-! ### Validation against order -/

theorem forall_controlled_iff :
    (∀ l ∈ d.loops, l.controlled = true) ↔
      ∀ members, IsCycle d.Joins members → ∃ c, d.IsExit members c := by
  constructor
  · intro h members hcycle
    obtain ⟨listed, hlisted, hrotated⟩ := exists_mem_cycles hcycle
    have hcontrolled := h (d.loopOf listed) (mem_loops.mpr ⟨listed, hlisted, rfl⟩)
    obtain ⟨c, hexit⟩ := (controlled_loopOf (hcycle.rotate hrotated)).mp hcontrolled
    exact ⟨c, hexit.of_perm hrotated.perm.symm⟩
  · intro h l hl
    obtain ⟨members, hmembers, rfl⟩ := mem_loops.mp hl
    have hcycle := (mem_cycles_iff.mp hmembers).1
    exact (controlled_loopOf hcycle).mpr (h members hcycle)

theorem uncontrolled?_eq_none_iff :
    d.uncontrolled? = none ↔ ∀ l ∈ d.loops, l.controlled = true := by
  simp [uncontrolled?]

theorem code_nodeError {c : Catalog} {n : Node} {f : Finding} (h : nodeError c n = some f) :
    f.code ≠ .circularDependency := by
  unfold nodeError at h
  split at h
  · split at h
    · cases h
    · obtain rfl := Option.some.inj h
      exact nofun
  · obtain rfl := Option.some.inj h
    exact nofun
  · obtain rfl := Option.some.inj h
    exact nofun

theorem exists_mem_circularErrors {loops : List Loop} {l : Loop}
    (h : loops.find? (fun l => !l.controlled) = some l) :
    ∃ f ∈ circularErrors loops, f.code = .circularDependency := by
  rw [circularErrors, h]
  exact ⟨_, List.mem_cons_self, rfl⟩

/-- The error about circles is reported exactly when some loop is not controlled. -/
theorem forall_code_ne_circular_iff (c : Catalog) :
    (∀ f ∈ (d.validate c).errors, f.code ≠ .circularDependency) ↔
      ∀ l ∈ d.loops, l.controlled = true := by
  rw [← uncontrolled?_eq_none_iff]
  simp only [validate, Report.ofFindings, uncontrolled?, List.mem_append, List.mem_filterMap]
  constructor
  · intro h
    cases hfind : d.loops.find? (fun l => !l.controlled) with
    | none => rfl
    | some l =>
        obtain ⟨f, hf, hcode⟩ := exists_mem_circularErrors hfind
        exact absurd hcode (h f (Or.inl hf))
  · intro h f hf
    rw [circularErrors, h] at hf
    rcases hf with hf | ⟨n, _, hf⟩
    · cases hf
    · exact code_nodeError hf

theorem controlled_of_valid {c : Catalog} (h : (d.validate c).valid = true) :
    ∀ l ∈ d.loops, l.controlled = true := by
  rw [← forall_code_ne_circular_iff c]
  intro f hf
  have hnone : (d.validate c).errors = [] := List.isEmpty_iff.mp h
  rw [hnone] at hf
  cases hf

theorem planWith_eq_ok_iff {report : Report} :
    (∃ p, d.planWith report = .ok p) ↔ ∃ order, d.order = .ok order := by
  simp only [planWith, order]
  cases d.orderAlong (d.forwardEdges d.loops) with
  | error stuck => simp
  | ok order => simp

/-- A definition passes its validation when its loops and its nodes give no errors. -/
theorem valid_of_loops {c : Catalog} {loops : List Loop} (hloops : d.loops = loops)
    (hcircular : circularErrors loops = []) (hnodes : d.nodes.filterMap (nodeError c) = []) :
    (d.validate c).valid = true := by
  rw [validate, hloops, hcircular, hnodes]
  rfl

/-- The plan of a definition without errors, part by part. -/
theorem plan_eq_ok {c : Catalog} {loops : List Loop} {order : List NodeId}
    {ancestors : Table (List NodeId)} (hloops : d.loops = loops)
    (hcircular : circularErrors loops = []) (hnodes : d.nodes.filterMap (nodeError c) = [])
    (horder : arrange (sourcesOf (d.forwardEdges loops)) d.byPrecedence = (order, []))
    (hancestors : d.ancestorsAlong (d.forwardEdges loops) order = ancestors) :
    d.plan c false = .ok ⟨d, order, d.loops, d.validate c, ancestors⟩ := by
  have hvalid := valid_of_loops hloops hcircular hnodes
  have horder' := orderAlong_eq_ok_iff.mpr horder
  simp [plan, hvalid, planWith, hloops, horder', hancestors]

/-- The detection of loops and the ordering agree, though they go about it differently.  A graph can
be ordered exactly when each of its simple cycles has an exit, which is when no loop is found that
is not controlled, which is when validation finds no circle.  So a plan can fail only at validation,
and then carries just its report. -/
theorem order_agrees_with_validation (d : Definition) (c : Catalog) :
    ((∃ order, d.order = .ok order) ↔
      ∀ members, IsCycle d.Joins members → ∃ v, d.IsExit members v) ∧
    ((∃ order, d.order = .ok order) ↔ d.uncontrolled? = none) ∧
    ((∃ order, d.order = .ok order) ↔
      ∀ f ∈ (d.validate c).errors, f.code ≠ .circularDependency) ∧
    ((∃ p, d.plan c false = .ok p) ↔ (d.validate c).valid = true) ∧
    (∀ e, d.plan c false = .error e → e = .rejected (d.validate c)) ∧
    ∀ nodes, d.plan c false ≠ .error (.tangled nodes) := by
  have hvalid : (d.validate c).valid = true → ∃ p, d.plan c false = .ok p := by
    intro h
    have hplan : d.plan c false = d.planWith (d.validate c) := by simp [plan, h]
    rw [hplan]
    exact planWith_eq_ok_iff.mpr (exists_order_iff.mpr (controlled_of_valid h))
  have hinvalid : (d.validate c).valid = false →
      d.plan c false = .error (.rejected (d.validate c)) := by
    intro h
    simp [plan, h]
  have herror : ∀ e, d.plan c false = .error e → e = .rejected (d.validate c) := by
    intro e he
    cases h : (d.validate c).valid with
    | false =>
        rw [hinvalid h] at he
        exact (Except.error.inj he).symm
    | true =>
        obtain ⟨p, hp⟩ := hvalid h
        rw [hp] at he
        cases he
  refine ⟨exists_order_iff.trans forall_controlled_iff,
    exists_order_iff.trans uncontrolled?_eq_none_iff.symm,
    exists_order_iff.trans (forall_code_ne_circular_iff c).symm, ⟨?_, hvalid⟩, herror, ?_⟩
  · rintro ⟨p, hp⟩
    by_contra h
    rw [hinvalid (Bool.eq_false_iff.mpr h)] at hp
    cases hp
  · intro nodes he
    cases herror _ he

end Definition

/-! ### Precedence -/

theorem mem_sortedNames {l : List String} {s : String} : s ∈ sortedNames l ↔ s ∈ l := by
  rw [sortedNames, Table.mem_keys_iff]
  simp only [Table.get?_ofList_map l (fun _ => ()) s]
  simp

namespace Definition

variable {edges : List Edge} {known : Table (List NodeId)}

theorem contains_handOn (id : NodeId) (inherited : List NodeId) (known : Table (List NodeId))
    (e : Edge) (v : NodeId) : (handOn id inherited known e).contains v = known.contains v := by
  unfold handOn
  split
  · rename_i before hbefore
    rw [Table.contains, Table.get?_insert, Table.contains]
    split
    · rename_i hv
      rw [hv, hbefore]
      rfl
    · rfl
  · rfl

theorem contains_foldl_handOn (id : NodeId) (inherited : List NodeId)
    (known : Table (List NodeId)) (edges : List Edge) (v : NodeId) :
    (edges.foldl (handOn id inherited) known).contains v = known.contains v := by
  induction edges generalizing known with
  | nil => rfl
  | cons e edges ih => rw [List.foldl_cons, ih, contains_handOn]

theorem mem_handOn {id : NodeId} {inherited : List NodeId} {e : Edge}
    (htarget : known.contains e.target = true) {a v : NodeId} :
    a ∈ ((handOn id inherited known e).get? v).getD [] ↔
      a ∈ (known.get? v).getD [] ∨ e.target = v ∧ (a = id ∨ a ∈ inherited) := by
  obtain ⟨before, hbefore⟩ := Option.isSome_iff_exists.mp htarget
  simp only [handOn, hbefore, Table.get?_insert]
  by_cases hv : v = e.target
  · simp only [hv, if_pos, Option.getD_some, hbefore, mem_sortedNames, List.mem_cons,
      List.cons_append, List.mem_append, true_and]
    rw [or_comm (a := a ∈ before), or_assoc]
  · have hne : e.target ≠ v := fun h => hv h.symm
    simp only [if_neg hv, hne, false_and, or_false]

theorem mem_foldl_handOn {id : NodeId} {inherited : List NodeId}
    (htargets : ∀ e ∈ edges, known.contains e.target = true) {a v : NodeId} :
    a ∈ ((edges.foldl (handOn id inherited) known).get? v).getD [] ↔
      a ∈ (known.get? v).getD [] ∨ (∃ e ∈ edges, e.target = v) ∧ (a = id ∨ a ∈ inherited) := by
  induction edges generalizing known with
  | nil => simp
  | cons e edges ih =>
      obtain ⟨he, hedges⟩ := List.forall_mem_cons.mp htargets
      have hkept : ∀ e' ∈ edges, (handOn id inherited known e).contains e'.target = true := by
        intro e' he'
        rw [contains_handOn]
        exact hedges e' he'
      rw [List.foldl_cons, ih hkept, mem_handOn he, List.exists_mem_cons_iff, or_assoc,
        or_and_right]

/-- What a pass comes to know of a node are the node that is handed on and what precedes it, if an
edge leads there. -/
theorem mem_handOnAll {id : NodeId} (htargets : ∀ e ∈ edges, known.contains e.target = true)
    {a v : NodeId} :
    a ∈ ((handOnAll edges known id).get? v).getD [] ↔ a ∈ (known.get? v).getD [] ∨
      Leads edges id v ∧ (a = id ∨ a ∈ (known.get? id).getD []) := by
  have hleads : (∃ e ∈ edges.filter (fun e => e.source == id), e.target = v) ↔
      Leads edges id v := by
    simp only [List.mem_filter, beq_iff_eq, Leads, and_assoc]
  rw [handOnAll, mem_foldl_handOn fun e he => htargets e (List.mem_of_mem_filter he), hleads]

theorem contains_ancestorsAlong (d : Definition) (edges : List Edge) (order : List NodeId)
    {v : NodeId} (hv : v ∈ d.ids) : (d.ancestorsAlong edges order).contains v = true := by
  induction order using List.reverseRecOn with
  | nil =>
      rw [ancestorsAlong, List.foldl_nil, Table.contains, Table.get?_ofList_map d.ids (fun _ => []),
        if_pos hv]
      rfl
  | append_singleton front id ih =>
      rw [ancestorsAlong, List.foldl_append, List.foldl_cons, List.foldl_nil, handOnAll,
        contains_foldl_handOn]
      exact ih

/-- If no node of the order comes before one that leads to it, then by the time a node is handed on,
all that precedes it is known.  So a pass comes to know all that precedes the nodes it has handed
on, and these nodes themselves. -/
theorem mem_ancestorsAlong (hedges : ∀ e ∈ edges, e ∈ d.edges) {order : List NodeId}
    (horder : ∀ before after v, order = before ++ v :: after → ∀ u, Leads edges u v → u ∈ before)
    {a v : NodeId} :
    a ∈ ((d.ancestorsAlong edges order).get? v).getD [] ↔
      ∃ u ∈ order, ReflTransGen (Leads edges) a u ∧ Leads edges u v := by
  induction order using List.reverseRecOn generalizing a v with
  | nil =>
      rw [ancestorsAlong, List.foldl_nil, Table.get?_ofList_map d.ids (fun _ => [])]
      split <;> simp
  | append_singleton front id ih =>
      have hfront : ∀ before after v, front = before ++ v :: after →
          ∀ u, Leads edges u v → u ∈ before := by
        rintro before after v rfl
        exact horder before (after ++ [id]) v (by simp)
      have htargets : ∀ e ∈ edges, (d.ancestorsAlong edges front).contains e.target = true :=
        fun e he =>
          d.contains_ancestorsAlong edges front (target_declared ⟨e, hedges e he, rfl, rfl⟩)
      -- all that leads to the node has been handed on, so what is known of it is complete
      have hinherited : a ∈ ((d.ancestorsAlong edges front).get? id).getD [] ↔
          TransGen (Leads edges) a id := by
        rw [ih hfront, TransGen.tail'_iff]
        constructor
        · rintro ⟨u, _, hreach, hstep⟩
          exact ⟨u, hreach, hstep⟩
        · rintro ⟨u, hreach, hstep⟩
          exact ⟨u, horder front [] id rfl u hstep, hreach, hstep⟩
      have hself : a = id ∨ TransGen (Leads edges) a id ↔ ReflTransGen (Leads edges) a id := by
        rw [reflTransGen_iff_eq_or_transGen, eq_comm]
      have hpass : d.ancestorsAlong edges (front ++ [id]) =
          handOnAll edges (d.ancestorsAlong edges front) id := by
        rw [ancestorsAlong, List.foldl_append]
        rfl
      rw [hpass, mem_handOnAll htargets, ih hfront, hinherited, hself]
      simp only [List.mem_append, List.mem_singleton, or_and_right, exists_or, exists_eq_left]
      rw [and_comm (a := Leads edges id v)]

end Definition

namespace Plan

/-- A forward edge of the plan leads from the one node to the other. -/
abbrev Forward (p : Plan) : NodeId → NodeId → Prop :=
  Leads (p.definition.forwardEdges p.definition.loops)

/-- What a run relies on: precedence is the existence of a path of forward edges, and the order
lists every node once and no node before one that leads to it. -/
structure Sound (p : Plan) : Prop where
  precedes_iff : ∀ a n, p.precedes a n = true ↔ TransGen p.Forward a n
  order_perm : p.order.Perm p.definition.ids
  mem_before : ∀ before after v, p.order = before ++ v :: after → ∀ u, p.Forward u v → u ∈ before

end Plan

theorem Definition.sound_of_planWith {report : Report} {p : Plan}
    (h : d.planWith report = .ok p) : p.definition = d ∧ p.Sound := by
  have hforward : ∀ e ∈ d.forwardEdges d.loops, e ∈ d.edges :=
    fun e he => Definition.mem_edges_of_mem_forwardEdges he
  dsimp only [Definition.planWith] at h
  cases horder : d.orderAlong (d.forwardEdges d.loops) with
  | error stuck =>
      rw [horder] at h
      cases h
  | ok order =>
      rw [horder] at h
      obtain rfl := Except.ok.inj h
      have hperm := Definition.orderAlong_perm horder
      have hbefore : ∀ before after v, order = before ++ v :: after →
          ∀ u, Leads (d.forwardEdges d.loops) u v → u ∈ before := by
        intro before after v hsplit u hstep
        exact Definition.mem_before_of_orderAlong horder hsplit hstep
          (Definition.source_declared (hstep.mono hforward))
      refine ⟨rfl, ?_, hperm, hbefore⟩
      intro a n
      rw [Plan.precedes, List.contains_iff_mem, Definition.mem_ancestorsAlong hforward hbefore,
        TransGen.tail'_iff]
      constructor
      · rintro ⟨u, _, hreach, hstep⟩
        exact ⟨u, hreach, hstep⟩
      · rintro ⟨u, hreach, hstep⟩
        have hu : u ∈ d.ids := Definition.source_declared (hstep.mono hforward)
        exact ⟨u, hperm.mem_iff.mpr hu, hreach, hstep⟩

theorem Definition.sound_of_plan {c : Catalog} {strict : Bool} {p : Plan}
    (h : d.plan c strict = .ok p) : p.definition = d ∧ p.Sound := by
  dsimp only [Definition.plan] at h
  split at h
  · cases h
  · exact Definition.sound_of_planWith h

namespace Plan

variable {p : Plan}

theorem Sound.order_nodup (hp : p.Sound) : p.order.Nodup :=
  hp.order_perm.nodup_iff.mpr p.definition.ids_nodup

/-- In the order of the plan everything that precedes a node comes before it. -/
theorem Sound.mem_before_of_precedes (hp : p.Sound) {a n : NodeId} (h : p.precedes a n = true)
    {before after : List NodeId} (hsplit : p.order = before ++ n :: after) : a ∈ before := by
  have hpath := (hp.precedes_iff a n).mp h
  clear h
  induction hpath generalizing before after with
  | single hlast => exact hp.mem_before before after _ hsplit a hlast
  | tail _ hlast ih =>
      obtain ⟨front, back, rfl⟩ := List.append_of_mem (hp.mem_before before after _ hsplit _ hlast)
      rw [List.append_assoc, List.cons_append] at hsplit
      exact List.mem_append_left _ (ih hsplit)

theorem Sound.exists_split_of_precedes (hp : p.Sound) {a n : NodeId}
    (h : p.precedes a n = true) : ∃ before after, p.order = before ++ n :: after ∧ a ∈ before := by
  obtain ⟨u, _, hlast⟩ := TransGen.tail'_iff.mp ((hp.precedes_iff a n).mp h)
  have hn : n ∈ p.definition.ids := Definition.target_declared
    (hlast.mono fun e he => Definition.mem_edges_of_mem_forwardEdges he)
  obtain ⟨before, after, hsplit⟩ := List.append_of_mem (hp.order_perm.mem_iff.mpr hn)
  exact ⟨before, after, hsplit, hp.mem_before_of_precedes h hsplit⟩

theorem Sound.idxOf_lt (hp : p.Sound) {a n : NodeId} (h : p.precedes a n = true) :
    p.order.idxOf a < p.order.idxOf n := by
  obtain ⟨before, after, hsplit, ha⟩ := hp.exists_split_of_precedes h
  obtain ⟨front, back, rfl⟩ := List.append_of_mem ha
  rw [List.append_assoc, List.cons_append] at hsplit
  exact idxOf_lt_idxOf_of_split hp.order_nodup hsplit
    (List.mem_append_right back List.mem_cons_self)

theorem Sound.precedes_trans (hp : p.Sound) {a b n : NodeId} (hab : p.precedes a b = true)
    (hbn : p.precedes b n = true) : p.precedes a n = true := by
  rw [hp.precedes_iff] at hab hbn ⊢
  exact hab.trans hbn

theorem Sound.not_precedes_self (hp : p.Sound) (n : NodeId) : p.precedes n n = false := by
  rw [Bool.eq_false_iff]
  intro h
  exact Nat.lt_irrefl _ (hp.idxOf_lt h)

/-- A sound plan of a workflow without a loop: every edge leads forward. -/
structure Straight (p : Plan) : Prop extends p.Sound where
  forward : ∀ u v, p.definition.Joins u v → p.Forward u v

theorem Straight.precedes_of_joins (hp : p.Straight) {u v : NodeId}
    (h : p.definition.Joins u v) : p.precedes u v = true :=
  (hp.precedes_iff u v).mpr (TransGen.single (hp.forward u v h))

end Plan

theorem Definition.straight_of_plan {c : Catalog} {strict : Bool} {p : Plan}
    (h : d.plan c strict = .ok p) (hacyclic : ∀ members, ¬ IsCycle d.Joins members) :
    p.Straight := by
  obtain ⟨rfl, hsound⟩ := Definition.sound_of_plan h
  refine ⟨hsound, fun u v huv => ?_⟩
  rw [Plan.Forward, Definition.forwardEdges_of_acyclic hacyclic]
  exact huv

end Workflow
