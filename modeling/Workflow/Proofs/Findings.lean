import Workflow.Proofs.Graph.Exits
/-!
# What the validation finds

A report holds just the findings that the workflow and the catalog give rise to, each of them once.
There is one error about circles if some cycle cannot be left, one warning for each cycle that can,
one error for each node that the catalog does not accept, and one warning for each node that no edge
leaves, and for each that has no edge at all.
-/
namespace Workflow

namespace Finding

/-- The list has one finding of this sort if the condition holds, and none otherwise. -/
def OnceIff (l : List Finding) (sort : Finding → Bool) (condition : Prop) : Prop :=
  (condition → l.countP sort = 1) ∧ (¬ condition → l.countP sort = 0)

/-- The finding has this code and is about this node alone. -/
def isAbout (code : Code) (id : NodeId) (f : Finding) : Bool :=
  f.code == code && f.nodes == [id]

/-- The path in the details leads once around this cycle, from whichever of its members. -/
def tellsOf (members : List NodeId) (f : Finding) : Bool :=
  f.cyclePath?.any fun path => decide (members ~r path.dropLast)

/-- A path that is put into the details is told of. -/
theorem cyclePath?_addDetail (f : Finding) (path : List NodeId) :
    (f.addDetail "cycle_path" (Json.strings path)).cyclePath? = some path := by
  have hnames : (path.map Json.string).filterMap Json.string? = path := by
    induction path with
    | nil => rfl
    | cons id path ih => simp [Json.string?, ih]
  rw [cyclePath?, addDetail, Table.get?_insert, if_pos rfl]
  exact congrArg some hnames

/-- Other details do not matter to it. -/
theorem cyclePath?_addDetail_of_ne (f : Finding) {key : String} (hkey : "cycle_path" ≠ key)
    (detail : Json) : (f.addDetail key detail).cyclePath? = f.cyclePath? := by
  rw [cyclePath?, addDetail, Table.get?_insert, if_neg hkey]
  rfl

theorem isAbout_iff {code : Code} {id : NodeId} {f : Finding} :
    f.isAbout code id = true ↔ f.code = code ∧ f.nodes = [id] := by
  simp [isAbout]

variable {l l' : List Finding} {sort : Finding → Bool} {condition condition' : Prop}

theorem OnceIff.congr (h : OnceIff l sort condition) (hiff : condition ↔ condition') :
    OnceIff l sort condition' := by
  rw [OnceIff, ← hiff]
  exact h

theorem onceIff_toList {found : Option Finding} :
    OnceIff found.toList sort (∃ f, found = some f ∧ sort f = true) := by
  cases found with
  | none => simp [OnceIff]
  | some f => by_cases h : sort f = true <;> simp [OnceIff, h]

theorem countP_eq_zero_of_other (hother : ∀ f ∈ l, sort f = false) : l.countP sort = 0 := by
  rw [List.countP_eq_zero]
  intro f hf
  simp [hother f hf]

/-- What is found elsewhere does not matter if it is of another sort. -/
theorem OnceIff.append_left (h : OnceIff l sort condition) (hother : ∀ f ∈ l', sort f = false) :
    OnceIff (l' ++ l) sort condition := by
  rw [OnceIff, List.countP_append, countP_eq_zero_of_other hother, Nat.zero_add]
  exact h

theorem OnceIff.append_right (h : OnceIff l sort condition) (hother : ∀ f ∈ l', sort f = false) :
    OnceIff (l ++ l') sort condition := by
  rw [OnceIff, List.countP_append, countP_eq_zero_of_other hother, Nat.add_zero]
  exact h

/-- Of several things that findings are made about, those of one sort come from one of them. -/
theorem OnceIff.flatMap {α : Type} {causes : List α} (hnodup : causes.Nodup) {cause : α}
    (hcause : cause ∈ causes) {found : α → List Finding}
    (h : OnceIff (found cause) sort condition)
    (hother : ∀ other ∈ causes, other ≠ cause → ∀ f ∈ found other, sort f = false) :
    OnceIff (causes.flatMap found) sort condition := by
  obtain ⟨before, after, rfl⟩ := List.append_of_mem hcause
  obtain ⟨_, hsuffix, hdisjoint⟩ := List.nodup_append'.mp hnodup
  have hbefore : ∀ f ∈ before.flatMap found, sort f = false := by
    intro f hf
    obtain ⟨other, hmem, hfound⟩ := List.mem_flatMap.mp hf
    apply hother other (List.mem_append_left _ hmem) _ f hfound
    intro heq
    exact hdisjoint (heq ▸ hmem) List.mem_cons_self
  have hafter : ∀ f ∈ after.flatMap found, sort f = false := by
    intro f hf
    obtain ⟨other, hmem, hfound⟩ := List.mem_flatMap.mp hf
    apply hother other (List.mem_append_right _ (List.mem_cons_of_mem _ hmem)) _ f hfound
    intro heq
    exact (List.nodup_cons.mp hsuffix).1 (heq ▸ hmem)
  rw [List.flatMap_append, List.flatMap_cons]
  exact (h.append_right hafter).append_left hbefore

end Finding

namespace Catalog

/-- A kind of this name is in the catalog. -/
def Knows (c : Catalog) (n : Node) : Prop :=
  ∃ k, c.kinds.get? n.kind = some k

/-- The catalog knows the kind of the node, the node can be made, and it has no remarks about its
configuration. -/
def Accepts (c : Catalog) (n : Node) : Prop :=
  ∃ k, c.kinds.get? n.kind = some k ∧ ∃ i, k.create n = .ok i ∧ i.problems = []

end Catalog

/-- A report that holds just the findings about a definition on a catalog. -/
structure Report.Exact (r : Report) (d : Definition) (c : Catalog) : Prop where
  valid_iff : r.valid = true ↔
    (∀ members, IsCycle d.Joins members → ∃ exit, d.IsExit members exit) ∧
      ∀ n ∈ d.nodes, c.Accepts n
  /-- There is one error about circles if a cycle cannot be left. -/
  circular : Finding.OnceIff r.errors (fun f => f.code == .circularDependency)
    (∃ members, IsCycle d.Joins members ∧ ∀ exit, ¬ d.IsExit members exit)
  /-- It is about the members of such a cycle and tells of the path around it. -/
  circle : ∀ f ∈ r.errors, f.code = .circularDependency →
    IsCycle d.Joins f.nodes ∧ (∀ exit, ¬ d.IsExit f.nodes exit) ∧
      f.cyclePath? = some (f.nodes ++ f.nodes.head?.toList)
  /-- There is one warning about each cycle that can be left. -/
  controlled : ∀ members, IsCycle d.Joins members →
    Finding.OnceIff r.warnings (fun f => f.code == .controlledLoop && f.tellsOf members)
      (∃ exit, d.IsExit members exit)
  /-- It is about the only condition of such a cycle and tells of the path around it. -/
  loop : ∀ f ∈ r.warnings, f.code = .controlledLoop → ∃ members exit,
    IsCycle d.Joins members ∧ d.IsExit members exit ∧ f.nodes = [exit] ∧
      f.cyclePath? = some (members ++ members.head?.toList)
  /-- There is one error about each node that the catalog does not accept. -/
  refused : ∀ n ∈ d.nodes, Finding.OnceIff r.errors
    (fun f => f.isAbout .unknownNodeKind n.id || f.isAbout .invalidNodeConfig n.id)
    (¬ c.Accepts n)
  /-- It tells of the kind if the catalog does not know that. -/
  unknown : ∀ n ∈ d.nodes,
    Finding.OnceIff r.errors (Finding.isAbout .unknownNodeKind n.id) (¬ c.Knows n)
  /-- There is one warning about each node that no edge leaves. -/
  terminal : ∀ id ∈ d.ids, Finding.OnceIff r.warnings (Finding.isAbout .noOutgoingEdge id)
    (∀ e ∈ d.edges, e.source ≠ id)
  /-- There is one warning about each node but the entry point that has no edge. -/
  dangling : ∀ id ∈ d.ids, Finding.OnceIff r.warnings (Finding.isAbout .danglingNode id)
    ((∀ e ∈ d.edges, e.source ≠ id ∧ e.target ≠ id) ∧ id ≠ d.entry)
  /-- There is no other error. -/
  errors : ∀ f ∈ r.errors, f.code = .circularDependency ∨
    ∃ n ∈ d.nodes, f.isAbout .unknownNodeKind n.id ∨ f.isAbout .invalidNodeConfig n.id
  /-- There is no other warning. -/
  warnings : ∀ f ∈ r.warnings, f.code = .controlledLoop ∨
    ∃ id ∈ d.ids, f.isAbout .noOutgoingEdge id ∨ f.isAbout .danglingNode id

namespace Definition

variable {d : Definition} {c : Catalog}

/-! ### The errors -/

/-- The error about circles tells of a loop that is not controlled. -/
theorem of_mem_circularErrors {loops : List Loop} {f : Finding} (hf : f ∈ circularErrors loops) :
    f.code = .circularDependency ∧
      ∃ l ∈ loops, l.controlled = false ∧ f.nodes = l.nodes ∧ f.cyclePath? = some l.path := by
  unfold circularErrors at hf
  split at hf
  · cases hf
  · rename_i l hfind
    obtain rfl := List.mem_singleton.mp hf
    have hcontrolled : l.controlled = false := by simpa using List.find?_some hfind
    refine ⟨rfl, l, List.mem_of_find?_eq_some hfind, hcontrolled, rfl, ?_⟩
    rw [Finding.cyclePath?_addDetail_of_ne _ (by decide), Finding.cyclePath?_addDetail]

theorem onceIff_circularErrors (loops : List Loop) :
    Finding.OnceIff (circularErrors loops) (fun f => f.code == .circularDependency)
      (¬ ∀ l ∈ loops, l.controlled = true) := by
  unfold circularErrors
  split
  · rename_i hnone
    have hall : ∀ l ∈ loops, l.controlled = true := by simpa using hnone
    exact ⟨fun hnot => absurd hall hnot, fun _ => rfl⟩
  · rename_i l hfind
    have hcontrolled : l.controlled = false := by simpa using List.find?_some hfind
    have hnot : ¬ ∀ l ∈ loops, l.controlled = true := by
      intro hall
      rw [hall l (List.mem_of_find?_eq_some hfind)] at hcontrolled
      cases hcontrolled
    simp [Finding.OnceIff, hnot, Finding.addDetail, Finding.plain]

theorem nodeError_eq_none_iff {n : Node} : nodeError c n = none ↔ c.Accepts n := by
  unfold nodeError Catalog.instantiate Catalog.Accepts
  cases hkind : c.kinds.get? n.kind with
  | none => simp
  | some k =>
      cases hmade : k.create n with
      | error f => simp [hmade, Except.mapError]
      | ok i =>
          cases hproblems : i.problems with
          | nil => simp [hmade, Except.mapError, hproblems]
          | cons problem problems => simp [hmade, Except.mapError, hproblems]

/-- The error about a node tells of its kind if the catalog does not know that, and else of its
configuration. -/
theorem isAbout_of_nodeError {n : Node} {f : Finding} (h : nodeError c n = some f) :
    (f.isAbout .unknownNodeKind n.id = true ∧ ¬ c.Knows n) ∨
      (f.isAbout .invalidNodeConfig n.id = true ∧ c.Knows n) := by
  unfold nodeError Catalog.instantiate at h
  unfold Catalog.Knows
  cases hkind : c.kinds.get? n.kind with
  | none =>
      simp only [hkind, Option.some.injEq] at h
      subst h
      left
      simp [Finding.isAbout, Finding.addDetail, Finding.plain]
  | some k =>
      right
      cases hmade : k.create n with
      | error e =>
          simp only [hkind, hmade, Except.mapError, Option.some.injEq] at h
          subst h
          simp [Finding.isAbout, Finding.addDetail, Finding.plain]
      | ok i =>
          simp only [hkind, hmade, Except.mapError] at h
          split at h
          · cases h
          · obtain rfl := Option.some.inj h
            simp [Finding.isAbout, Finding.addDetail, Finding.plain]

theorem nodes_of_nodeError {n : Node} {f : Finding} (h : nodeError c n = some f) :
    f.nodes = [n.id] := by
  rcases isAbout_of_nodeError h with ⟨habout, _⟩ | ⟨habout, _⟩
  · exact (Finding.isAbout_iff.mp habout).2
  · exact (Finding.isAbout_iff.mp habout).2

/-- Of the errors about one node there are those that are made when it is looked at. -/
theorem onceIff_nodeError (d : Definition) (c : Catalog) {n : Node} (hn : n ∈ d.nodes)
    {sort : Finding → Bool}
    (hsort : ∀ f, sort f = true → f.code ≠ .circularDependency ∧ f.nodes = [n.id]) :
    Finding.OnceIff (d.validate c).errors sort (∃ f, nodeError c n = some f ∧ sort f = true) := by
  change Finding.OnceIff (circularErrors d.loops ++ d.nodes.filterMap (nodeError c)) sort _
  rw [List.filterMap_eq_flatMap_toList]
  apply Finding.OnceIff.append_left
  · apply Finding.OnceIff.flatMap (List.Nodup.of_map _ d.nodes_nodup) hn Finding.onceIff_toList
    intro other hother hne f hf
    rw [Option.mem_toList] at hf
    by_contra hsome
    obtain ⟨_, hnodes⟩ := hsort f (by simpa using hsome)
    apply hne
    apply List.inj_on_of_nodup_map d.nodes_nodup hother hn
    rw [nodes_of_nodeError hf] at hnodes
    exact List.singleton_inj.mp hnodes
  · intro f hf
    by_contra hsome
    exact (hsort f (by simpa using hsome)).1 (of_mem_circularErrors hf).1

theorem onceIff_circular (d : Definition) (c : Catalog) :
    Finding.OnceIff (d.validate c).errors (fun f => f.code == .circularDependency)
      (∃ members, IsCycle d.Joins members ∧ ∀ exit, ¬ d.IsExit members exit) := by
  have hcondition : (¬ ∀ l ∈ d.loops, l.controlled = true) ↔
      ∃ members, IsCycle d.Joins members ∧ ∀ exit, ¬ d.IsExit members exit := by
    rw [forall_controlled_iff]
    push Not
    rfl
  apply ((onceIff_circularErrors d.loops).congr hcondition).append_right
  intro f hf
  obtain ⟨n, _, herror⟩ := List.mem_filterMap.mp hf
  simpa using code_nodeError herror

/-- The error about circles is about a cycle without an exit. -/
theorem isCycle_of_circular {f : Finding} (hf : f ∈ (d.validate c).errors)
    (hcode : f.code = .circularDependency) :
    IsCycle d.Joins f.nodes ∧ (∀ exit, ¬ d.IsExit f.nodes exit) ∧
      f.cyclePath? = some (f.nodes ++ f.nodes.head?.toList) := by
  rcases List.mem_append.mp hf with hf | hf
  · obtain ⟨_, l, hl, hcontrolled, hnodes, hpath⟩ := of_mem_circularErrors hf
    obtain ⟨members, hmembers, rfl⟩ := mem_loops.mp hl
    have hcycle := (mem_cycles_iff.mp hmembers).1
    rw [hnodes]
    refine ⟨hcycle, ?_, hpath⟩
    intro exit hexit
    rw [(controlled_loopOf hcycle).mpr ⟨exit, hexit⟩] at hcontrolled
    cases hcontrolled
  · obtain ⟨n, _, herror⟩ := List.mem_filterMap.mp hf
    exact absurd hcode (code_nodeError herror)

theorem onceIff_refused (c : Catalog) {n : Node} (hn : n ∈ d.nodes) :
    Finding.OnceIff (d.validate c).errors
      (fun f => f.isAbout .unknownNodeKind n.id || f.isAbout .invalidNodeConfig n.id)
      (¬ c.Accepts n) := by
  apply (onceIff_nodeError d c hn _).congr
  · rw [← nodeError_eq_none_iff]
    constructor
    · intro ⟨f, hf, _⟩ hnone
      rw [hf] at hnone
      cases hnone
    · intro hsome
      obtain ⟨f, hf⟩ := Option.ne_none_iff_exists'.mp hsome
      refine ⟨f, hf, ?_⟩
      rcases isAbout_of_nodeError hf with ⟨habout, _⟩ | ⟨habout, _⟩
      · simp [habout]
      · simp [habout]
  · intro f hf
    rw [Bool.or_eq_true, Finding.isAbout_iff, Finding.isAbout_iff] at hf
    rcases hf with ⟨hcode, hnodes⟩ | ⟨hcode, hnodes⟩
    · simp [hcode, hnodes]
    · simp [hcode, hnodes]

theorem onceIff_unknown (c : Catalog) {n : Node} (hn : n ∈ d.nodes) :
    Finding.OnceIff (d.validate c).errors (Finding.isAbout .unknownNodeKind n.id)
      (¬ c.Knows n) := by
  apply (onceIff_nodeError d c hn _).congr
  · constructor
    · intro ⟨f, hf, hunknown⟩
      rcases isAbout_of_nodeError hf with ⟨_, hkind⟩ | ⟨habout, _⟩
      · exact hkind
      · have hcode := (Finding.isAbout_iff.mp hunknown).1
        rw [(Finding.isAbout_iff.mp habout).1] at hcode
        cases hcode
    · intro hkind
      have hsome : nodeError c n ≠ none := by
        rw [ne_eq, nodeError_eq_none_iff]
        intro ⟨k, hk, _⟩
        exact hkind ⟨k, hk⟩
      obtain ⟨f, hf⟩ := Option.ne_none_iff_exists'.mp hsome
      rcases isAbout_of_nodeError hf with ⟨habout, _⟩ | ⟨_, hknown⟩
      · exact ⟨f, hf, habout⟩
      · exact absurd hknown hkind
  · intro f hf
    simp [Finding.isAbout_iff.mp hf]

/-! ### The warnings -/

/-- The warning about a loop names its exit and tells of its path. -/
theorem of_controlledWarning {l : Loop} {f : Finding} (h : controlledWarning l = some f) :
    f.code = .controlledLoop ∧ f.cyclePath? = some l.path ∧
      ∃ exit, l.exit = some exit ∧ f.nodes = [exit] := by
  unfold controlledWarning at h
  split at h
  · rename_i exit _ hexit
    obtain rfl := Option.some.inj h
    exact ⟨rfl, Finding.cyclePath?_addDetail _ _, exit, hexit, rfl⟩
  · cases h

theorem dropLast_path {l : Loop} (h : l.nodes ≠ []) : l.path.dropLast = l.nodes := by
  obtain ⟨first, rest, hnodes⟩ := List.exists_cons_of_ne_nil h
  rw [Loop.path, hnodes, List.head?_cons, Option.toList_some, List.dropLast_concat]

theorem mem_terminal {id : NodeId} :
    id ∈ d.terminal ↔ id ∈ d.ids ∧ ∀ e ∈ d.edges, e.source ≠ id := by
  simp [terminal, outgoing]

theorem mem_dangling {id : NodeId} :
    id ∈ d.dangling ↔
      id ∈ d.ids ∧ (∀ e ∈ d.edges, e.source ≠ id ∧ e.target ≠ id) ∧ id ≠ d.entry := by
  simp only [dangling, outgoing, incoming, List.mem_filter, Bool.and_eq_true, bne_iff_ne,
    List.isEmpty_iff, List.filter_eq_nil_iff, beq_iff_eq]
  constructor
  · rintro ⟨hid, ⟨hne, hin⟩, hout⟩
    exact ⟨hid, fun e he => ⟨hout e he, hin e he⟩, hne⟩
  · rintro ⟨hid, hedges, hne⟩
    exact ⟨hid, ⟨hne, fun e he => (hedges e he).2⟩, fun e he => (hedges e he).1⟩

/-- A warning about the edges of a node is about that node. -/
theorem isAbout_of_mem_edgeWarnings {id : NodeId} {f : Finding} (hf : f ∈ d.edgeWarnings id) :
    f.isAbout .noOutgoingEdge id = true ∨ f.isAbout .danglingNode id = true := by
  rw [edgeWarnings, List.mem_append] at hf
  rcases hf with hf | hf
  · split at hf
    · obtain rfl := List.mem_singleton.mp hf
      right
      simp [Finding.isAbout, Finding.plain]
    · cases hf
  · split at hf
    · obtain rfl := List.mem_singleton.mp hf
      left
      simp [Finding.isAbout, Finding.plain]
    · cases hf

theorem nodes_of_mem_edgeWarnings {id : NodeId} {f : Finding} (hf : f ∈ d.edgeWarnings id) :
    f.nodes = [id] := by
  rcases isAbout_of_mem_edgeWarnings hf with habout | habout
  · exact (Finding.isAbout_iff.mp habout).2
  · exact (Finding.isAbout_iff.mp habout).2

theorem code_ne_of_mem_edgeWarnings {id : NodeId} {f : Finding} (hf : f ∈ d.edgeWarnings id) :
    f.code ≠ .controlledLoop := by
  rcases isAbout_of_mem_edgeWarnings hf with habout | habout
  · simp [(Finding.isAbout_iff.mp habout).1]
  · simp [(Finding.isAbout_iff.mp habout).1]

/-- Of the warnings about the edges of one node there are those that are made when it is looked
at. -/
theorem onceIff_edgeWarnings (c : Catalog) {id : NodeId} (hid : id ∈ d.ids) {code : Finding.Code}
    (hcode : code ≠ .controlledLoop) {condition : Prop}
    (h : Finding.OnceIff (d.edgeWarnings id) (Finding.isAbout code id) condition) :
    Finding.OnceIff (d.validate c).warnings (Finding.isAbout code id) condition := by
  change Finding.OnceIff
    (d.loops.filterMap controlledWarning ++ d.ids.flatMap d.edgeWarnings) _ condition
  apply Finding.OnceIff.append_left
  · apply Finding.OnceIff.flatMap d.ids_nodup hid h
    intro other _ hne f hf
    by_contra hsome
    obtain ⟨_, hnodes⟩ := Finding.isAbout_iff.mp (Bool.not_eq_false _ ▸ hsome)
    apply hne
    rw [nodes_of_mem_edgeWarnings hf] at hnodes
    exact List.singleton_inj.mp hnodes
  · intro f hf
    obtain ⟨l, _, hwarning⟩ := List.mem_filterMap.mp hf
    by_contra hsome
    apply hcode
    rw [← (of_controlledWarning hwarning).1]
    exact (Finding.isAbout_iff.mp (Bool.not_eq_false _ ▸ hsome)).1.symm

/-- The warnings about loops are made one loop after the other. -/
theorem onceIff_controlledWarning (d : Definition) (c : Catalog) {members : List NodeId}
    (hcycle : IsCycle d.Joins members) :
    Finding.OnceIff (d.validate c).warnings
      (fun f => f.code == .controlledLoop && f.tellsOf members)
      (∃ exit, d.IsExit members exit) := by
  obtain ⟨listed, hlisted, hrotated⟩ := exists_mem_cycles hcycle
  have hcycle' := hcycle.rotate hrotated
  have htells : ∀ told ∈ d.cycles, ∀ f, controlledWarning (d.loopOf told) = some f →
      (f.tellsOf members = true ↔ told = listed) := by
    intro told htold f hf
    have hne : (d.loopOf told).nodes ≠ [] := (mem_cycles_iff.mp htold).1.ne_nil
    have hpath := (of_controlledWarning hf).2.1
    simp only [Finding.tellsOf, hpath, Option.any_some, dropLast_path hne, decide_eq_true_eq]
    constructor
    · intro htold'
      exact eq_of_mem_cycles_of_isRotated htold hlisted (htold'.symm.trans hrotated)
    · rintro rfl
      exact hrotated
  change Finding.OnceIff ((d.cycles.map d.loopOf).filterMap controlledWarning ++
    d.ids.flatMap d.edgeWarnings) _ _
  rw [List.filterMap_map, List.filterMap_eq_flatMap_toList]
  apply Finding.OnceIff.append_right
  · apply Finding.OnceIff.flatMap d.cycles_nodup hlisted
    · apply Finding.onceIff_toList.congr
      constructor
      · rintro ⟨f, hf, _⟩
        obtain ⟨_, _, exit, hexit, _⟩ := of_controlledWarning hf
        exact ⟨exit, ((exit_loopOf hcycle').mp hexit).of_perm hrotated.perm.symm⟩
      · rintro ⟨exit, hexit⟩
        have hexit' := hexit.of_perm hrotated.perm
        obtain ⟨f, hf⟩ : ∃ f, controlledWarning (d.loopOf listed) = some f := by
          rw [controlledWarning, (controlled_loopOf hcycle').mpr ⟨exit, hexit'⟩,
            (exit_loopOf hcycle').mpr hexit']
          exact ⟨_, rfl⟩
        refine ⟨f, hf, ?_⟩
        simp [(of_controlledWarning hf).1, (htells listed hlisted f hf).mpr rfl]
    · intro told htold hne f hf
      have hf' : controlledWarning (d.loopOf told) = some f := Option.mem_toList.mp hf
      rw [Bool.and_eq_false_iff]
      right
      rw [Bool.eq_false_iff]
      intro htold'
      exact hne ((htells told htold f hf').mp htold')
  · intro f hf
    obtain ⟨id, _, hwarning⟩ := List.mem_flatMap.mp hf
    rw [Bool.and_eq_false_iff]
    exact Or.inl (by simpa using code_ne_of_mem_edgeWarnings hwarning)

/-- A warning about a loop is about the exit of a cycle. -/
theorem exists_isExit_of_controlledLoop {f : Finding} (hf : f ∈ (d.validate c).warnings)
    (hcode : f.code = .controlledLoop) :
    ∃ members exit, IsCycle d.Joins members ∧ d.IsExit members exit ∧ f.nodes = [exit] ∧
      f.cyclePath? = some (members ++ members.head?.toList) := by
  rcases List.mem_append.mp hf with hf | hf
  · obtain ⟨l, hl, hwarning⟩ := List.mem_filterMap.mp hf
    obtain ⟨members, hmembers, rfl⟩ := mem_loops.mp hl
    have hcycle := (mem_cycles_iff.mp hmembers).1
    obtain ⟨_, hpath, exit, hexit, hnodes⟩ := of_controlledWarning hwarning
    exact ⟨members, exit, hcycle, (exit_loopOf hcycle).mp hexit, hnodes, hpath⟩
  · obtain ⟨id, _, hwarning⟩ := List.mem_flatMap.mp hf
    exact absurd hcode (code_ne_of_mem_edgeWarnings hwarning)

theorem onceIff_terminal (c : Catalog) {id : NodeId} (hid : id ∈ d.ids) :
    Finding.OnceIff (d.validate c).warnings (Finding.isAbout .noOutgoingEdge id)
      (∀ e ∈ d.edges, e.source ≠ id) := by
  have hterminal : id ∈ d.terminal ↔ ∀ e ∈ d.edges, e.source ≠ id := by
    rw [mem_terminal, and_iff_right hid]
  apply onceIff_edgeWarnings c hid (by decide)
  rw [Finding.OnceIff, ← hterminal, edgeWarnings]
  by_cases hdangles : id ∈ d.dangling <;> by_cases hends : id ∈ d.terminal <;>
    simp [hdangles, hends, Finding.isAbout, Finding.plain]

theorem onceIff_dangling (c : Catalog) {id : NodeId} (hid : id ∈ d.ids) :
    Finding.OnceIff (d.validate c).warnings (Finding.isAbout .danglingNode id)
      ((∀ e ∈ d.edges, e.source ≠ id ∧ e.target ≠ id) ∧ id ≠ d.entry) := by
  have hdangling : id ∈ d.dangling ↔
      (∀ e ∈ d.edges, e.source ≠ id ∧ e.target ≠ id) ∧ id ≠ d.entry := by
    rw [mem_dangling, and_iff_right hid]
  apply onceIff_edgeWarnings c hid (by decide)
  rw [Finding.OnceIff, ← hdangling, edgeWarnings]
  by_cases hdangles : id ∈ d.dangling <;> by_cases hends : id ∈ d.terminal <;>
    simp [hdangles, hends, Finding.isAbout, Finding.plain]

/-- A workflow is valid exactly when every cycle can be left and the catalog accepts every node. -/
theorem validate_valid_iff (d : Definition) (c : Catalog) :
    (d.validate c).valid = true ↔
      (∀ members, IsCycle d.Joins members → ∃ exit, d.IsExit members exit) ∧
        ∀ n ∈ d.nodes, c.Accepts n := by
  change (circularErrors d.loops ++ d.nodes.filterMap (nodeError c)).isEmpty = true ↔ _
  rw [List.isEmpty_iff, List.append_eq_nil_iff, List.filterMap_eq_nil_iff,
    ← forall_controlled_iff]
  simp only [nodeError_eq_none_iff]
  apply and_congr_left
  intro _
  rw [← uncontrolled?_eq_none_iff, uncontrolled?, circularErrors]
  split
  · rename_i hnone
    simp [hnone]
  · rename_i l hsome
    simp [hsome]

/-- Whoever has a plan has only nodes that can be made ready and are configured well. -/
theorem exists_instance_of_plan {strict : Bool} {p : Plan} (h : d.plan c strict = .ok p) :
    ∀ n ∈ d.nodes, ∃ made, c.instantiate n = .ok made ∧ made.problems = [] := by
  have hvalid : (d.validate c).valid = true := by
    by_contra hinvalid
    rw [plan, Bool.eq_false_iff.mpr hinvalid] at h
    cases h
  intro n hn
  obtain ⟨k, hk, made, hmade, hproblems⟩ := ((d.validate_valid_iff c).mp hvalid).2 n hn
  refine ⟨made, ?_, hproblems⟩
  rw [Catalog.instantiate, hk]
  exact congrArg (Except.mapError SetupError.node) hmade

/-- The validation reports what there is to report about a workflow, and nothing else.  Whatever the
workflow and the catalog, a workflow is valid exactly when every cycle can be left and every node is
accepted.  There is one error about circles if a cycle cannot be left, and it leads once around such
a cycle; one warning for each cycle that can be left, which names its only condition; one error for
each node whose kind is unknown, that cannot be made or that is not configured well; one warning for
each node that no edge leaves; and one for each node but the entry point that has no edge at all. -/
theorem validate_exact (d : Definition) (c : Catalog) : (d.validate c).Exact d c where
  valid_iff := d.validate_valid_iff c
  circular := d.onceIff_circular c
  circle _ hf hcode := isCycle_of_circular hf hcode
  controlled _ hcycle := d.onceIff_controlledWarning c hcycle
  loop _ hf hcode := exists_isExit_of_controlledLoop hf hcode
  refused _ hn := onceIff_refused c hn
  unknown _ hn := onceIff_unknown c hn
  terminal _ hid := onceIff_terminal c hid
  dangling _ hid := onceIff_dangling c hid
  errors := by
    intro f hf
    rcases List.mem_append.mp hf with hf | hf
    · exact Or.inl (of_mem_circularErrors hf).1
    · obtain ⟨n, hn, herror⟩ := List.mem_filterMap.mp hf
      right
      refine ⟨n, hn, ?_⟩
      exact (isAbout_of_nodeError herror).imp (fun h => h.1) (fun h => h.1)
  warnings := by
    intro f hf
    rcases List.mem_append.mp hf with hf | hf
    · obtain ⟨l, _, hwarning⟩ := List.mem_filterMap.mp hf
      exact Or.inl (of_controlledWarning hwarning).1
    · obtain ⟨id, hid, hwarning⟩ := List.mem_flatMap.mp hf
      exact Or.inr ⟨id, hid, isAbout_of_mem_edgeWarnings hwarning⟩

/-- A loop that can be left and that two edges close, one that cannot be left, a node of an unknown
kind, and one without an edge. -/
def muddle : Definition :=
  .plain "muddle"
    [.plain "check" "condition", .plain "mend" "step", .plain "copy" "step", .plain "sort" "step",
      .plain "print" "printer", .plain "spare" "step"]
    [.plain "e1" "check" "mend", .plain "e2" "mend" "check", .plain "e3" "mend" "check",
      .plain "e4" "check" "copy", .plain "e5" "copy" "sort", .plain "e6" "sort" "copy",
      .plain "e7" "sort" "print"]
    "check" 3

/-- Each is reported once, whichever member the loop that can be left is told from. -/
theorem muddle_reported :
    (muddle.validate bareKinds).valid = false ∧
    (muddle.validate bareKinds).errors.map (fun f => (f.code, f.nodes)) =
      [(.circularDependency, ["copy", "sort"]), (.unknownNodeKind, ["print"])] ∧
    ((muddle.validate bareKinds).warnings.countP fun f =>
      f.code == .controlledLoop && f.tellsOf ["mend", "check"]) = 1 ∧
    (muddle.validate bareKinds).warnings.countP (Finding.isAbout .danglingNode "spare") = 1 := by
  have hcycle : IsCycle muddle.Joins ["mend", "check"] := by decide
  have hexit : muddle.IsExit ["mend", "check"] "check" :=
    (exit?_eq_some_iff hcycle.nodup).mp (by cbv)
  have hloops : muddle.loops = [⟨["check", "mend"], "e2", true, some "check"⟩,
      ⟨["copy", "sort"], "e6", false, none⟩] := by cbv
  have hexact := muddle.validate_exact bareKinds
  have herrors : (muddle.validate bareKinds).errors.map (fun f => (f.code, f.nodes)) =
    [(.circularDependency, ["copy", "sort"]), (.unknownNodeKind, ["print"])] := by
    rw [validate, hloops]
    rfl
  have hvalid : (muddle.validate bareKinds).valid =
      ((muddle.validate bareKinds).errors.map fun f => (f.code, f.nodes)).isEmpty := by
    rw [List.isEmpty_map]
    rfl
  refine ⟨by rw [hvalid, herrors]; rfl, herrors, (hexact.controlled _ hcycle).1 ⟨_, hexit⟩, ?_⟩
  exact (hexact.dangling "spare" (by decide)).1 (by decide)

end Definition
end Workflow
