import Mathlib.Data.List.Nodup
import Mathlib.Logic.Relation
import Workflow.Graph.Walk
/-!
# What a walk meets

A walk lists exactly the nodes that can be reached from its stack, each of them once, and it lists
them depth first: a node comes before everything that was first met through it.
-/
namespace Workflow

variable {V : Type u}

/-- A path of successors leads from one node to the other; the empty path counts. -/
def Reaches (successors : V → List V) : V → V → Prop :=
  Relation.ReflTransGen (fun u v => v ∈ successors u)

/-- `DepthFirst successors stack seen out` says that to visit a stack depth first, when the nodes
of `seen` are met already, is to end with the nodes of `out` met.  A new node is met first, then
everything below it, and only then the rest of the stack. -/
inductive DepthFirst (successors : V → List V) : List V → List V → List V → Prop where
  | done (seen : List V) : DepthFirst successors [] seen seen
  | skip {v : V} {rest seen out : List V} (hv : v ∈ seen)
      (hrest : DepthFirst successors rest seen out) :
      DepthFirst successors (v :: rest) seen out
  | visit {v : V} {rest seen below out : List V} (hv : v ∉ seen)
      (hbelow : DepthFirst successors (successors v) (seen ++ [v]) below)
      (hrest : DepthFirst successors rest below out) :
      DepthFirst successors (v :: rest) seen out

/-- A stack of two parts is visited part by part. -/
theorem DepthFirst.append_inv {successors : V → List V} {stack seen out : List V}
    (h : DepthFirst successors stack seen out) {first second : List V}
    (hstack : stack = first ++ second) :
    ∃ mid, DepthFirst successors first seen mid ∧ DepthFirst successors second mid out := by
  induction h generalizing first with
  | done seen =>
      obtain ⟨rfl, rfl⟩ := List.nil_eq_append_iff.mp hstack
      exact ⟨seen, .done seen, .done seen⟩
  | skip hv hrest ih =>
      cases first with
      | nil =>
          subst hstack
          exact ⟨_, .done _, .skip hv hrest⟩
      | cons u first =>
          obtain ⟨rfl, rfl⟩ := List.cons.inj hstack
          obtain ⟨mid, hfirst, hsecond⟩ := ih rfl
          exact ⟨mid, .skip hv hfirst, hsecond⟩
  | visit hv hbelow hrest _ ih =>
      cases first with
      | nil =>
          subst hstack
          exact ⟨_, .done _, .visit hv hbelow hrest⟩
      | cons u first =>
          obtain ⟨rfl, rfl⟩ := List.cons.inj hstack
          obtain ⟨mid, hfirst, hsecond⟩ := ih rfl
          exact ⟨mid, .visit hv hbelow hfirst, hsecond⟩

/-- Two stacks may be visited as one. -/
theorem DepthFirst.append {successors : V → List V} {first second seen mid out : List V}
    (hfirst : DepthFirst successors first seen mid)
    (hsecond : DepthFirst successors second mid out) :
    DepthFirst successors (first ++ second) seen out := by
  induction hfirst with
  | done => exact hsecond
  | skip hv _ ih => exact .skip hv (ih hsecond)
  | visit hv hbelow _ _ ih => exact .visit hv hbelow (ih hsecond)

/-- What is met when a stack is visited depth first is determined. -/
theorem DepthFirst.unique {successors : V → List V} {stack seen out out' : List V}
    (h : DepthFirst successors stack seen out) (h' : DepthFirst successors stack seen out') :
    out = out' := by
  induction h generalizing out' with
  | done seen =>
      cases h'
      rfl
  | skip hv _ ih =>
      cases h' with
      | skip _ hrest' => exact ih hrest'
      | visit hv' _ _ => exact absurd hv hv'
  | visit hv _ _ ihbelow ihrest =>
      cases h' with
      | skip hv' _ => exact absurd hv' hv
      | visit _ hbelow' hrest' =>
          have hmid := ihbelow hbelow'
          subst hmid
          exact ihrest hrest'

/-- What is met already stays in front. -/
theorem DepthFirst.seen_isPrefix {successors : V → List V} {stack seen out : List V}
    (h : DepthFirst successors stack seen out) : seen <+: out := by
  induction h with
  | done seen => exact List.prefix_rfl
  | skip _ _ ih => exact ih
  | visit _ _ _ ihbelow ihrest =>
      exact ((List.prefix_append _ _).trans ihbelow).trans ihrest

/-- A visit does not come to what its stack does not lead to, so it does not matter what follows
there. -/
theorem DepthFirst.congr {successors successors' : V → List V} {P : V → Prop}
    (hclosed : ∀ u, P u → ∀ v ∈ successors u, P v)
    (hsame : ∀ u, P u → successors' u = successors u) {stack seen out : List V}
    (h : DepthFirst successors stack seen out) (hstack : ∀ v ∈ stack, P v) :
    DepthFirst successors' stack seen out := by
  induction h with
  | done seen => exact .done seen
  | skip hv _ ih =>
      obtain ⟨_, hrest⟩ := List.forall_mem_cons.mp hstack
      exact .skip hv (ih hrest)
  | @visit v rest seen below out hv _ _ ihbelow ihrest =>
      obtain ⟨hhead, hrest⟩ := List.forall_mem_cons.mp hstack
      have hmet := ihbelow (hclosed v hhead)
      rw [← hsame v hhead] at hmet
      exact .visit hv hmet (ihrest hrest)

/-- It makes no difference if nodes that are met already are taken from the stack. -/
theorem DepthFirst.filter_iff {successors : V → List V} {stack seen out : List V} {p : V → Bool}
    (hp : ∀ v ∈ stack, p v = false → v ∈ seen) :
    DepthFirst successors (stack.filter p) seen out ↔ DepthFirst successors stack seen out := by
  induction stack generalizing seen with
  | nil => rfl
  | cons v stack ih =>
      obtain ⟨hv, hstack⟩ := List.forall_mem_cons.mp hp
      cases hkept : p v with
      | true =>
          have hlater : ∀ below, seen <+: below →
              (DepthFirst successors (stack.filter p) below out ↔
                DepthFirst successors stack below out) :=
            fun below hbelow => ih fun w hw hdropped => hbelow.subset (hstack w hw hdropped)
          rw [List.filter_cons_of_pos hkept]
          constructor
          · intro h
            cases h with
            | skip hseen hrest => exact .skip hseen ((hlater seen List.prefix_rfl).mp hrest)
            | visit hnew hbelow hrest =>
                have hmore := (List.prefix_append seen [v]).trans hbelow.seen_isPrefix
                exact .visit hnew hbelow ((hlater _ hmore).mp hrest)
          · intro h
            cases h with
            | skip hseen hrest => exact .skip hseen ((hlater seen List.prefix_rfl).mpr hrest)
            | visit hnew hbelow hrest =>
                have hmore := (List.prefix_append seen [v]).trans hbelow.seen_isPrefix
                exact .visit hnew hbelow ((hlater _ hmore).mpr hrest)
      | false =>
          have hseen := hv hkept
          rw [List.filter_cons_of_neg (by simp [hkept]), ih hstack]
          constructor
          · intro h
            exact .skip hseen h
          · intro h
            cases h with
            | skip _ hrest => exact hrest
            | visit hnew _ _ => exact absurd hseen hnew

variable [DecidableEq V] {successors : V → List V} {nodes : List V}

/-- A node that stands on a stack twice is met where it stands first. -/
theorem DepthFirst.of_eraseDups {stack seen out : List V}
    (h : DepthFirst successors stack.eraseDups seen out) :
    DepthFirst successors stack seen out := by
  induction hlength : stack.length using Nat.strongRecOn generalizing stack seen out with
  | ind n ih =>
      cases stack with
      | nil => exact h
      | cons v stack =>
          have hle := List.length_filter_le (fun w => !w == v) stack
          rw [List.length_cons] at hlength
          rw [List.eraseDups_cons] at h
          have hlater : ∀ below, v ∈ below →
              DepthFirst successors (stack.filter (fun w => !w == v)).eraseDups below out →
                DepthFirst successors stack below out := by
            intro below hv hrest
            refine (DepthFirst.filter_iff fun w _ hw => ?_).mp (ih _ (by omega) hrest rfl)
            rw [Bool.not_eq_false', beq_iff_eq] at hw
            exact hw ▸ hv
          cases h with
          | skip hseen hrest => exact .skip hseen (hlater _ hseen hrest)
          | visit hnew hbelow hrest =>
              have hv := hbelow.seen_isPrefix.subset
                (List.mem_append_right seen (List.mem_singleton_self v))
              exact .visit hnew hbelow (hlater _ hv hrest)

theorem DepthFirst.of_successors_eraseDups {stack seen out : List V}
    (h : DepthFirst (fun v => (successors v).eraseDups) stack seen out) :
    DepthFirst successors stack seen out := by
  induction h with
  | done seen => exact .done seen
  | skip hv _ ih => exact .skip hv ih
  | visit hv _ _ ihbelow ihrest => exact .visit hv ihbelow.of_eraseDups ihrest

theorem mem_walk_of_mem_visited {stack visited : List V} {v : V} (hv : v ∈ visited) :
    v ∈ walk successors nodes stack visited := by
  fun_induction walk successors nodes stack visited with
  | case1 => exact hv
  | case2 u stack visited _ ih => exact ih (List.mem_append_left _ hv)
  | case3 u stack visited _ ih => exact ih hv

theorem walk_nodup {stack visited : List V} (hvisited : visited.Nodup) :
    (walk successors nodes stack visited).Nodup := by
  fun_induction walk successors nodes stack visited with
  | case1 => exact hvisited
  | case2 u stack visited hu ih =>
      apply ih
      rw [List.nodup_append']
      refine ⟨hvisited, List.nodup_singleton u, ?_⟩
      rw [List.disjoint_singleton]
      exact hu.2
  | case3 u stack visited _ ih => exact ih hvisited

theorem mem_walk_of_mem_stack {stack visited : List V} {v : V} (hv : v ∈ stack)
    (hnodes : v ∈ nodes) : v ∈ walk successors nodes stack visited := by
  fun_induction walk successors nodes stack visited with
  | case1 => cases hv
  | case2 u stack visited _ ih =>
      rcases List.mem_cons.mp hv with rfl | hv
      · exact mem_walk_of_mem_visited (by simp)
      · exact ih (List.mem_append_right _ hv)
  | case3 u stack visited hu ih =>
      rcases List.mem_cons.mp hv with rfl | hv
      · have hseen : v ∈ visited := by
          by_contra hnew
          exact hu ⟨hnodes, hnew⟩
        exact mem_walk_of_mem_visited hseen
      · exact ih hv

theorem reaches_of_mem_walk {stack visited : List V} {v : V}
    (hv : v ∈ walk successors nodes stack visited) :
    v ∈ visited ∨ v ∈ nodes ∧ ∃ s ∈ stack, Reaches successors s v := by
  fun_induction walk successors nodes stack visited with
  | case1 => exact Or.inl hv
  | case2 u stack visited hu ih =>
      rcases ih hv with hseen | ⟨hnodes, s, hs, hreach⟩
      · rcases List.mem_append.mp hseen with hseen | hseen
        · exact Or.inl hseen
        · obtain rfl := List.mem_singleton.mp hseen
          exact Or.inr ⟨hu.1, v, List.mem_cons_self, Relation.ReflTransGen.refl⟩
      · right
        refine ⟨hnodes, ?_⟩
        rcases List.mem_append.mp hs with hs | hs
        · exact ⟨u, List.mem_cons_self, Relation.ReflTransGen.head hs hreach⟩
        · exact ⟨s, List.mem_cons_of_mem u hs, hreach⟩
  | case3 u stack visited _ ih =>
      rcases ih hv with hseen | ⟨hnodes, s, hs, hreach⟩
      · exact Or.inl hseen
      · exact Or.inr ⟨hnodes, s, List.mem_cons_of_mem u hs, hreach⟩

/-- The invariant behind completeness: whatever follows a visited node is visited itself or still on
the stack.  At the end of the walk the stack is empty. -/
theorem mem_walk_of_mem_successors {stack visited : List V}
    (hclosed : ∀ u ∈ visited, ∀ v ∈ successors u, v ∈ nodes → v ∈ visited ∨ v ∈ stack) :
    ∀ u ∈ walk successors nodes stack visited, ∀ v ∈ successors u, v ∈ nodes →
      v ∈ walk successors nodes stack visited := by
  fun_induction walk successors nodes stack visited with
  | case1 =>
      intro u hu v hv hnodes
      exact (hclosed u hu v hv hnodes).resolve_right (List.not_mem_nil)
  | case2 s stack visited hs ih =>
      apply ih
      intro u hu v hv hnodes
      rcases List.mem_append.mp hu with hu | hu
      · rcases hclosed u hu v hv hnodes with hseen | hstack
        · exact Or.inl (List.mem_append_left _ hseen)
        · rcases List.mem_cons.mp hstack with rfl | hstack
          · exact Or.inl (by simp)
          · exact Or.inr (List.mem_append_right _ hstack)
      · obtain rfl := List.mem_singleton.mp hu
        exact Or.inr (List.mem_append_left _ hv)
  | case3 s stack visited hs ih =>
      apply ih
      intro u hu v hv hnodes
      rcases hclosed u hu v hv hnodes with hseen | hstack
      · exact Or.inl hseen
      · rcases List.mem_cons.mp hstack with rfl | hstack
        · left
          by_contra hnew
          exact hs ⟨hnodes, hnew⟩
        · exact Or.inr hstack

/-- A walk whose nodes are closed under successors lists what can be reached, and nothing else. -/
theorem mem_walk_iff {stack : List V} (hnodes : ∀ u, ∀ v ∈ successors u, v ∈ nodes)
    (hstack : ∀ s ∈ stack, s ∈ nodes) (v : V) :
    v ∈ walk successors nodes stack [] ↔ ∃ s ∈ stack, Reaches successors s v := by
  constructor
  · intro hv
    rcases reaches_of_mem_walk hv with hnone | ⟨_, hreach⟩
    · cases hnone
    · exact hreach
  · rintro ⟨s, hs, hreach⟩
    have hclosed : ∀ a ∈ walk successors nodes stack [], ∀ b ∈ successors a, b ∈ nodes →
        b ∈ walk successors nodes stack [] :=
      mem_walk_of_mem_successors (by simp)
    induction hreach with
    | refl => exact mem_walk_of_mem_stack hs (hstack s hs)
    | tail _ hstep ih => exact hclosed _ ih _ hstep (hnodes _ _ hstep)

/-- A walk visits its stack depth first. -/
theorem depthFirst_walk {stack visited : List V} (hnodes : ∀ u, ∀ v ∈ successors u, v ∈ nodes)
    (hstack : ∀ s ∈ stack, s ∈ nodes) :
    DepthFirst successors stack visited (walk successors nodes stack visited) := by
  fun_induction walk successors nodes stack visited with
  | case1 => exact .done _
  | case2 u stack visited hu ih =>
      have hbelow : ∀ s ∈ successors u ++ stack, s ∈ nodes := by
        intro s hs
        rcases List.mem_append.mp hs with hs | hs
        · exact hnodes u s hs
        · exact hstack s (List.mem_cons_of_mem u hs)
      obtain ⟨mid, hfirst, hsecond⟩ := (ih hbelow).append_inv rfl
      exact .visit hu.2 hfirst hsecond
  | case3 u stack visited hu ih =>
      have hseen : u ∈ visited := by
        by_contra hnew
        exact hu ⟨hstack u List.mem_cons_self, hnew⟩
      exact .skip hseen (ih fun s hs => hstack s (List.mem_cons_of_mem u hs))

end Workflow
