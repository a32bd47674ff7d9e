import Workflow.Proofs.Definition
import Workflow.Proofs.Table
import Workflow.Run.Result
/-!
# Setting up a run

The job that is made of a plan is a job for that plan, and every node of the plan has been made
ready in it.
-/
namespace Workflow
namespace Job

variable {c : Catalog}

/-- The nodes made ready are the nodes asked for. -/
theorem map_fst_instancesOf {nodes : List Node} {made : List (NodeId × Instance)}
    (h : instancesOf c nodes = .ok made) : made.map Prod.fst = nodes.map Node.id := by
  induction nodes generalizing made with
  | nil =>
      obtain rfl := Except.ok.inj h
      rfl
  | cons n nodes ih =>
      unfold instancesOf at h
      split at h
      · cases h
      · cases hrest : instancesOf c nodes with
        | error e =>
            rw [hrest] at h
            cases h
        | ok rest =>
            rw [hrest] at h
            obtain rfl := Except.ok.inj h
            rw [List.map_cons, List.map_cons, ih hrest]

theorem instancesOf_cons_eq_error_iff {n : Node} {i : Instance} (hi : c.instantiate n = .ok i)
    {nodes : List Node} {e : RunError} :
    instancesOf c (n :: nodes) = .error e ↔ instancesOf c nodes = .error e := by
  rw [instancesOf, hi]
  cases instancesOf c nodes with
  | error e' => exact Iff.rfl
  | ok made => exact iff_of_false nofun nofun

/-- When nodes that can be made ready are put among others, whether all can be made ready, and which
cannot first, stays the same. -/
theorem instancesOf_eq_error_iff {c' : Catalog} {nodes nodes' : List Node}
    (hnodes : nodes.Sublist nodes') (hnodup : nodes'.Nodup)
    (hshared : ∀ n ∈ nodes, c'.instantiate n = c.instantiate n)
    (hadded : ∀ n ∈ nodes', n ∈ nodes ∨ ∃ i, c'.instantiate n = .ok i) {e : RunError} :
    instancesOf c' nodes' = .error e ↔ instancesOf c nodes = .error e := by
  induction hnodes with
  | slnil => exact iff_of_false nofun nofun
  | @cons nodes rest n hrest ih =>
      obtain ⟨hnew, hnodup⟩ := List.nodup_cons.mp hnodup
      obtain ⟨hhead, htail⟩ := List.forall_mem_cons.mp hadded
      obtain ⟨i, hi⟩ := hhead.resolve_left fun hn => hnew (hrest.subset hn)
      rw [instancesOf_cons_eq_error_iff hi]
      exact ih hnodup hshared htail
  | @cons_cons nodes rest n _ ih =>
      obtain ⟨hnew, hnodup⟩ := List.nodup_cons.mp hnodup
      obtain ⟨hsame, hshared⟩ := List.forall_mem_cons.mp hshared
      have htail : ∀ m ∈ rest, m ∈ nodes ∨ ∃ i, c'.instantiate m = .ok i := by
        intro m hm
        refine (hadded m (List.mem_cons_of_mem n hm)).imp_left fun hshared => ?_
        exact (List.mem_cons.mp hshared).resolve_left fun heq => hnew (heq ▸ hm)
      cases hmade : c.instantiate n with
      | error e' => rw [instancesOf, instancesOf, hsame, hmade]
      | ok i =>
          rw [instancesOf_cons_eq_error_iff hmade,
            instancesOf_cons_eq_error_iff (hsame.trans hmade)]
          exact ih hnodup hshared htail

variable {evaluator : Evaluator} {parallel : Nat} {p : Plan} {initial : Fields} {j : Job}

theorem make?_eq_error_iff {e : RunError} : make? c evaluator parallel p initial = .error e ↔
    instancesOf c p.definition.nodes = .error e := by
  rw [make?]
  cases instancesOf c p.definition.nodes with
  | error e' =>
      change Except.error e' = Except.error e ↔ Except.error e' = Except.error e
      rw [Except.error.injEq, Except.error.injEq]
  | ok made => exact iff_of_false nofun nofun

theorem instancesOf_of_make? (h : make? c evaluator parallel p initial = .ok j) :
    ∃ made, instancesOf c p.definition.nodes = .ok made ∧ j.plan = p ∧
      j.instance? = lookupDeclared p.definition.ids made := by
  unfold make? at h
  cases hmade : instancesOf c p.definition.nodes with
  | error e =>
      rw [hmade] at h
      cases h
  | ok made =>
      rw [hmade] at h
      obtain rfl := Except.ok.inj h
      exact ⟨made, rfl, rfl, rfl⟩

theorem plan_of_make? (h : make? c evaluator parallel p initial = .ok j) : j.plan = p := by
  obtain ⟨_, _, hplan, _⟩ := instancesOf_of_make? h
  exact hplan

theorem exists_instance_of_make? (h : make? c evaluator parallel p initial = .ok j) {id : NodeId}
    (hid : id ∈ p.definition.ids) : ∃ made, j.instance? id = some made := by
  obtain ⟨made, hmade, _, hinstance⟩ := instancesOf_of_make? h
  have hkeys : made.map Prod.fst = p.definition.ids := map_fst_instancesOf hmade
  obtain ⟨⟨_, i⟩, hmem, rfl⟩ := List.mem_map.mp (hkeys ▸ hid)
  refine ⟨i, ?_⟩
  rw [hinstance, lookupDeclared, if_pos hid]
  exact Table.lookup_of_mem (hkeys ▸ p.definition.ids_nodup) hmem

/-- What has been made ready was made of one of the nodes. -/
theorem exists_node_of_mem_instancesOf {nodes : List Node} {made : List (NodeId × Instance)}
    (h : instancesOf c nodes = .ok made) {id : NodeId} {i : Instance} (hmem : (id, i) ∈ made) :
    ∃ n ∈ nodes, n.id = id ∧ c.instantiate n = .ok i := by
  induction nodes generalizing made with
  | nil =>
      obtain rfl := Except.ok.inj h
      cases hmem
  | cons n nodes ih =>
      unfold instancesOf at h
      split at h
      · cases h
      · rename_i i' hi'
        obtain ⟨rest, hrest, rfl⟩ := map_cons_eq_ok_iff.mp h
        rcases List.mem_cons.mp hmem with heq | hmem
        · obtain ⟨rfl, rfl⟩ := Prod.mk.inj heq
          exact ⟨n, List.mem_cons_self, rfl, hi'⟩
        · obtain ⟨n', hn', hmade⟩ := ih hrest hmem
          exact ⟨n', List.mem_cons_of_mem n hn', hmade⟩

theorem exists_node_of_make? (h : make? c evaluator parallel p initial = .ok j) {id : NodeId}
    {i : Instance} (hi : j.instance? id = some i) :
    ∃ n ∈ p.definition.nodes, n.id = id ∧ c.instantiate n = .ok i := by
  obtain ⟨made, hmade, _, hinstance⟩ := instancesOf_of_make? h
  rw [hinstance, lookupDeclared] at hi
  split at hi
  · exact exists_node_of_mem_instancesOf hmade (Table.lookup_eq_some_mem hi)
  · cases hi

theorem exists_instancesOf {nodes : List Node} (h : ∀ n ∈ nodes, ∃ i, c.instantiate n = .ok i) :
    ∃ made, instancesOf c nodes = .ok made := by
  induction nodes with
  | nil => exact ⟨[], rfl⟩
  | cons n nodes ih =>
      obtain ⟨⟨i, hi⟩, hnodes⟩ := List.forall_mem_cons.mp h
      obtain ⟨made, hmade⟩ := ih hnodes
      refine ⟨(n.id, i) :: made, ?_⟩
      rw [instancesOf, hi]
      exact map_cons_eq_ok_iff.mpr ⟨made, hmade, rfl⟩

/-- A plan can be run if all its nodes can be made ready. -/
theorem exists_make? (evaluator : Evaluator) (parallel : Nat) (initial : Fields)
    (h : ∀ n ∈ p.definition.nodes, ∃ i, c.instantiate n = .ok i) :
    ∃ j, make? c evaluator parallel p initial = .ok j := by
  obtain ⟨made, hmade⟩ := exists_instancesOf h
  rw [make?, hmade]
  exact ⟨_, rfl⟩

/-- The surroundings of a job are those that it was made with. -/
theorem surroundings_of_make? (h : make? c evaluator parallel p initial = .ok j) :
    j.evaluator = evaluator ∧ j.parallel = parallel ∧ j.initial = initial := by
  obtain ⟨made, hmade, _, _⟩ := instancesOf_of_make? h
  rw [make?, hmade] at h
  obtain rfl := Except.ok.inj h
  exact ⟨rfl, rfl, rfl⟩

end Job
end Workflow
