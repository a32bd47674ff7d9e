import Workflow.Proofs.Construction
import Workflow.Proofs.Graph.Exits
import Workflow.Proofs.Plan
import Workflow.Proofs.Stored.Reader
import Workflow.Stored.Plan
/-!
# Plans are stored without loss

A definition is restored because it is written as a draft that gives nothing to be found, and a plan
because nothing in it has another form that is as good: what precedes a node is listed by increasing
name, and the details of findings are texts.
-/
namespace Workflow

/-- What the types of a definition leave open but its stored form relies on: the cap has 32 bits,
configured numbers are finite, and configured objects list their members by increasing key. -/
structure Definition.Storable (d : Definition) : Prop where
  cap_lt : d.cap < Nat.pow 2 32
  finite : ∀ n ∈ d.nodes, ∀ e ∈ n.config.entries, e.2.Finite
  ordered : ∀ n ∈ d.nodes, ∀ e ∈ n.config.entries, e.2.Ordered

namespace Stored

/-! ### Definitions -/

theorem restores_node {n : Node} (h : ∀ e ∈ n.config.entries, e.2.Finite ∧ e.2.Ordered) :
    Restores nodeDraft n.tree n.draft := by
  have hsorted : (Table.ofList [("id", Json.string n.id), ("type", .string n.kind),
      ("config", Fields.tree n.config)]).entries =
        [("config", Fields.tree n.config), ("id", .string n.id), ("type", .string n.kind)] := by
    cbv
  refine restores_record hsorted ?_ rfl
  refine .next rfl rfl (restores_defaulted (restores_fields h)) ?_
  refine .next rfl rfl (restores_required (restores_text n.id)) ?_
  exact .next rfl rfl (restores_required (restores_text n.kind)) .done

theorem restores_edge (e : Edge) : Restores edgeDraft e.tree e.draft := by
  obtain ⟨id, source, target, condition, _⟩ := e
  cases condition with
  | none =>
      have hsorted : (Table.ofList [("id", Json.string id), ("source", .string source),
          ("target", .string target)]).entries =
            [("id", .string id), ("source", .string source), ("target", .string target)] := by
        cbv
      refine restores_record hsorted ?_ rfl
      refine .next rfl rfl (restores_defaulted (restores_text id)) ?_
      refine .next rfl rfl (restores_required (restores_text source)) ?_
      exact .next rfl rfl (restores_required (restores_text target)) .done
  | some condition =>
      have hsorted : (Table.ofList [("id", Json.string id), ("source", .string source),
          ("target", .string target), ("condition", .string condition)]).entries =
            [("condition", .string condition), ("id", .string id), ("source", .string source),
              ("target", .string target)] := by
        cbv
      refine restores_record hsorted ?_ rfl
      refine .next rfl rfl (restores_defaulted ((restores_text condition).some (by simp))) ?_
      refine .next rfl rfl (restores_defaulted (restores_text id)) ?_
      refine .next rfl rfl (restores_required (restores_text source)) ?_
      exact .next rfl rfl (restores_required (restores_text target)) .done

theorem restores_draft {d : Definition} (h : d.Storable) : Restores draft d.tree d.draft := by
  have hsorted : (Table.ofList [("name", Json.string d.name),
      ("nodes", .array (d.nodes.map Node.tree)), ("edges", .array (d.edges.map Edge.tree)),
      ("entry_point", .string d.entry), ("max_iterations", Json.nat d.cap)]).entries =
        [("edges", .array (d.edges.map Edge.tree)), ("entry_point", .string d.entry),
          ("max_iterations", Json.nat d.cap), ("name", .string d.name),
          ("nodes", .array (d.nodes.map Node.tree))] := by
    cbv
  have hnodes : ∀ n ∈ d.nodes, Restores nodeDraft n.tree n.draft := fun n hn =>
    restores_node fun e he => ⟨h.finite n hn e he, h.ordered n hn e he⟩
  refine restores_record hsorted ?_ rfl
  refine .next rfl rfl (restores_defaulted (restores_map fun e _ => restores_edge e)) ?_
  refine .next rfl rfl (restores_defaulted ((restores_text d.entry).some (by simp))) ?_
  have hcap : Json.nat d.cap ≠ .null := by simp [Json.nat]
  refine .next rfl rfl (restores_defaulted ((restores_whole32 h.cap_lt).some hcap)) ?_
  refine .next rfl rfl (restores_defaulted (restores_text d.name)) ?_
  exact .next rfl rfl (restores_required (restores_map hnodes)) .done

theorem restores_definition {d : Definition} (h : d.Storable) : Restores definition d.tree d := by
  intro depth hdepth
  simp only [definition, restores_draft h depth hdepth, d.build?_draft, Except.mapError]

/-! ### Reports -/

theorem restores_code (c : Finding.Code) : Restores code (.string c.name) c := by
  intro depth _
  cases c <;> rfl

end Stored

/-- The details of the finding are in normal form. -/
def Finding.Settled (f : Finding) : Prop :=
  ∀ key detail, f.context.get? key = some detail → detail.normal = detail

namespace Finding

theorem settled_plain (code : Code) (message : String) (nodes : List NodeId) :
    (plain code message nodes).Settled :=
  nofun

theorem Settled.addDetail {f : Finding} (h : f.Settled) {key : String} {detail : Json}
    (hdetail : detail.normal = detail) : (f.addDetail key detail).Settled := by
  intro key' detail' hget
  rw [Finding.addDetail, Table.get?_insert] at hget
  split at hget
  · obtain rfl := Option.some.inj hget
    exact hdetail
  · exact h key' detail' hget

end Finding

namespace Definition

variable {d : Definition} {c : Catalog}

theorem settled_of_mem_circularErrors {loops : List Loop} {f : Finding}
    (h : f ∈ circularErrors loops) : f.Settled := by
  unfold circularErrors at h
  split at h
  · cases h
  · obtain rfl := List.mem_singleton.mp h
    exact ((Finding.settled_plain _ _ _).addDetail (Json.normal_strings _)).addDetail rfl

theorem settled_of_controlledWarning {l : Loop} {f : Finding} (h : controlledWarning l = some f) :
    f.Settled := by
  unfold controlledWarning at h
  split at h
  · obtain rfl := Option.some.inj h
    exact ((Finding.settled_plain _ _ _).addDetail rfl).addDetail (Json.normal_strings _)
  · cases h

theorem settled_of_mem_edgeWarnings {id : NodeId} {f : Finding} (h : f ∈ d.edgeWarnings id) :
    f.Settled := by
  rw [edgeWarnings, List.mem_append] at h
  rcases h with h | h <;> split at h
  · obtain rfl := List.mem_singleton.mp h
    exact Finding.settled_plain _ _ _
  · cases h
  · obtain rfl := List.mem_singleton.mp h
    exact Finding.settled_plain _ _ _
  · cases h

theorem normal_problemsTree (problems : List Problem) :
    (problemsTree problems).normal = problemsTree problems := by
  have hproblem : ∀ p : Problem,
      (Json.object [("error", .string p.text), ("field", .string p.field)]).normal =
        .object [("error", .string p.text), ("field", .string p.field)] := by
    intro p
    cbv
  rw [problemsTree, Json.normal, Json.normalItems_eq_map, List.map_map]
  exact congrArg Json.array (List.map_congr_left fun p _ => hproblem p)

theorem settled_of_nodeError {n : Node} {f : Finding} (h : nodeError c n = some f) :
    f.Settled := by
  unfold nodeError at h
  split at h
  · split at h
    · cases h
    · obtain rfl := Option.some.inj h
      exact (Finding.settled_plain _ _ _).addDetail (normal_problemsTree _)
  · obtain rfl := Option.some.inj h
    exact (Finding.settled_plain _ _ _).addDetail rfl
  · obtain rfl := Option.some.inj h
    exact (Finding.settled_plain _ _ _).addDetail rfl

theorem settled_of_validate (d : Definition) (c : Catalog) :
    (∀ f ∈ (d.validate c).errors, f.Settled) ∧ ∀ f ∈ (d.validate c).warnings, f.Settled := by
  simp only [validate, Report.ofFindings, List.mem_append, List.mem_filterMap, List.mem_flatMap]
  constructor
  · rintro f (h | ⟨n, _, h⟩)
    · exact settled_of_mem_circularErrors h
    · exact settled_of_nodeError h
  · rintro f (⟨l, _, h⟩ | ⟨id, _, h⟩)
    · exact settled_of_controlledWarning h
    · exact settled_of_mem_edgeWarnings h

end Definition

namespace Stored

theorem restores_finding {f : Finding} (h : f.Settled) : Restores finding f.tree f := by
  have hsorted : (Table.ofList [("code", Json.string f.code.name), ("message", .string f.message),
      ("node_ids", Json.strings f.nodes), ("context", Json.ofTable f.context)]).entries =
        [("code", .string f.code.name), ("context", Json.ofTable f.context),
          ("message", .string f.message), ("node_ids", Json.strings f.nodes)] := by
    cbv
  have hnormal : ∀ e ∈ f.context.entries, e.2.normal = e.2 := by
    rintro ⟨key, detail⟩ he
    exact h key detail (Table.get?_eq_some_iff.mpr he)
  have hcontext : f.context.map Json.normal = f.context := Table.map_eq_self hnormal
  have hread : Restores finding f.tree { f with context := f.context.map Json.normal } := by
    refine restores_record hsorted ?_ rfl
    refine .next rfl rfl (restores_required (restores_code f.code)) ?_
    refine .next rfl rfl (restores_defaulted (restores_trees hnormal)) ?_
    refine .next rfl rfl (restores_required (restores_text f.message)) ?_
    exact .next rfl rfl (restores_required (restores_strings f.nodes)) .done
  rwa [hcontext] at hread

theorem restores_report {r : Report} (herrors : ∀ f ∈ r.errors, f.Settled)
    (hwarnings : ∀ f ∈ r.warnings, f.Settled) : Restores report r.tree r := by
  have hsorted : (Table.ofList [("valid", Json.bool r.valid),
      ("errors", .array (r.errors.map Finding.tree)),
      ("warnings", .array (r.warnings.map Finding.tree))]).entries =
        [("errors", .array (r.errors.map Finding.tree)), ("valid", .bool r.valid),
          ("warnings", .array (r.warnings.map Finding.tree))] := by
    cbv
  refine restores_record hsorted ?_ rfl
  refine .next rfl rfl (restores_required (restores_items fun f hf =>
    restores_finding (herrors f hf))) ?_
  refine .next rfl rfl (restores_required (restores_truth r.valid)) ?_
  exact .next rfl rfl (restores_required (restores_items fun f hf =>
    restores_finding (hwarnings f hf))) .done

/-! ### Plans -/

theorem restores_loop (l : Loop) : Restores loop l.tree l := by
  have hsorted : (Table.ofList [("nodes", Json.strings l.nodes), ("back_edge", .string l.backEdge),
      ("has_condition_exit", .bool l.controlled),
      ("condition_node_id", optionalText l.exit)]).entries =
        [("back_edge", .string l.backEdge), ("condition_node_id", optionalText l.exit),
          ("has_condition_exit", .bool l.controlled), ("nodes", Json.strings l.nodes)] := by
    cbv
  have hexit : Restores (optional text) (optionalText l.exit) l.exit := by
    cases l.exit with
    | none => exact restores_none text
    | some c => exact (restores_text c).some (by simp)
  refine restores_record hsorted ?_ rfl
  refine .next rfl rfl (restores_required (restores_text l.backEdge)) ?_
  refine .next rfl rfl (restores_nullable hexit) ?_
  refine .next rfl rfl (restores_required (restores_truth l.controlled)) ?_
  exact .next rfl rfl (restores_required (restores_strings l.nodes)) .done

/-- A plan is restored if its definition can be stored, the details of its findings are in normal
form, and it lists what precedes a node by increasing name. -/
theorem restores_plan {p : Plan} (hdefinition : p.definition.Storable)
    (herrors : ∀ f ∈ p.report.errors, f.Settled) (hwarnings : ∀ f ∈ p.report.warnings, f.Settled)
    (hnames : p.ancestors.map sortedNames = p.ancestors) : Restores plan p.tree p := by
  have hsorted : (Table.ofList [("definition", p.definition.tree), ("order", Json.strings p.order),
      ("loops", .array (p.loops.map Loop.tree)), ("validation", p.report.tree),
      ("ancestors", Json.ofTable (p.ancestors.map Json.strings))]).entries =
        [("ancestors", Json.ofTable (p.ancestors.map Json.strings)),
          ("definition", p.definition.tree), ("loops", .array (p.loops.map Loop.tree)),
          ("order", Json.strings p.order), ("validation", p.report.tree)] := by
    cbv
  have hparts : Restores planParts p.tree
      ⟨some p.definition, p.order, p.loops, p.report, p.ancestors.map sortedNames⟩ := by
    refine restores_record hsorted ?_ rfl
    refine .next rfl rfl (restores_required (restores_table fun e _ => restores_strings e.2)) ?_
    refine .next rfl rfl (restores_required (restores_definition hdefinition)) ?_
    refine .next rfl rfl (restores_required (restores_items fun l _ => restores_loop l)) ?_
    refine .next rfl rfl (restores_required (restores_strings p.order)) ?_
    exact .next rfl rfl (restores_required (restores_report herrors hwarnings)) .done
  intro depth hdepth
  simp only [plan, hparts depth hdepth, hnames]

end Stored

/-! ### What a plan holds -/

/-- What is in a plan beside its definition, its order and its loops. -/
theorem Definition.parts_of_plan {d : Definition} {c : Catalog} {strict : Bool} {p : Plan}
    (h : d.plan c strict = .ok p) : p.definition = d ∧ p.report = d.validate c ∧
      p.ancestors = d.ancestorsAlong (d.forwardEdges d.loops) p.order := by
  dsimp only [plan, planWith] at h
  split at h
  · cases h
  · split at h
    · cases h
    · obtain rfl := Except.ok.inj h
      exact ⟨rfl, rfl, rfl⟩

/-- Names that are sorted stay as they are. -/
theorem sortedNames_sortedNames (l : List String) :
    sortedNames (sortedNames l) = sortedNames l := by
  have hentries : ∀ t : Table Unit, t.keys.map (fun s => (s, ())) = t.entries := by
    intro t
    rw [Table.keys, List.map_map]
    exact List.map_id t.entries
  rw [sortedNames, sortedNames, hentries, Table.ofList_entries]

namespace Definition

/-- Each list in the table is sorted. -/
def ListsSorted (known : Table (List NodeId)) : Prop :=
  ∀ id names, known.get? id = some names → sortedNames names = names

theorem ListsSorted.handOn {known : Table (List NodeId)} (h : ListsSorted known) (id : NodeId)
    (inherited : List NodeId) (e : Edge) : ListsSorted (handOn id inherited known e) := by
  unfold Definition.handOn
  split
  · intro id' names hget
    rw [Table.get?_insert] at hget
    split at hget
    · obtain rfl := Option.some.inj hget
      exact sortedNames_sortedNames _
    · exact h id' names hget
  · exact h

theorem ListsSorted.handOnAll {known : Table (List NodeId)} (h : ListsSorted known)
    (edges : List Edge) (id : NodeId) : ListsSorted (handOnAll edges known id) := by
  rw [Definition.handOnAll]
  generalize (known.get? id).getD [] = inherited
  induction edges.filter (fun e => e.source == id) generalizing known with
  | nil => exact h
  | cons e edges ih => exact ih (h.handOn id inherited e)

theorem listsSorted_ancestorsAlong (d : Definition) (edges : List Edge) (order : List NodeId) :
    ListsSorted (d.ancestorsAlong edges order) := by
  have hstart : ListsSorted (Table.ofList (d.ids.map fun id => (id, ([] : List NodeId)))) := by
    intro id names hget
    rw [Table.get?_ofList_map d.ids (fun _ => [])] at hget
    split at hget
    · obtain rfl := Option.some.inj hget
      rfl
    · cases hget
  rw [ancestorsAlong]
  generalize Table.ofList (d.ids.map fun id => (id, ([] : List NodeId))) = known at hstart
  induction order generalizing known with
  | nil => exact hstart
  | cons id order ih => exact ih _ (hstart.handOnAll edges id)

end Definition

/-- Definitions and plans are stored without loss.  A definition, however it was made, is built
again from the draft that it is written down as, and one that can be stored is read back from its
stored form; so is every plan of it, whole as it was: with its definition, its order, its loops, its
report and all that it knows about precedence.  A run of the plan that was read back is a run of the
plan. -/
theorem Plan.checkpoint_is_lossless (d : Definition) :
    d.draft.build? = .ok d ∧
    (d.Storable → Stored.ofTree Stored.definition d.tree = .ok d) ∧
    ∀ (c : Catalog) (strict : Bool) (p : Plan), d.plan c strict = .ok p → d.Storable →
      Stored.ofTree Stored.plan p.tree = .ok p := by
  refine ⟨d.build?_draft, fun h => (Stored.restores_definition h).ofTree, ?_⟩
  intro c strict p hplan hstorable
  obtain ⟨rfl, hreport, hancestors⟩ := Definition.parts_of_plan hplan
  obtain ⟨herrors, hwarnings⟩ := p.definition.settled_of_validate c
  have hnames : p.ancestors.map sortedNames = p.ancestors := by
    refine Table.map_eq_self fun e he => ?_
    rw [hancestors] at he
    exact Definition.listsSorted_ancestorsAlong _ _ _ e.1 e.2 (Table.get?_eq_some_iff.mpr he)
  exact (Stored.restores_plan hstorable (hreport ▸ herrors) (hreport ▸ hwarnings) hnames).ofTree

namespace Definition

/-- The style in which a note is to be written. -/
def noteStyle : Json :=
  .object [("tone", .string "plain"), ("marks", .array [.bool true, .null, .string "x"])]

/-- A note is written in a certain style, and again until the check finds it good. -/
def note : Definition :=
  .plain "note"
    [(Node.plain "write" "step").configure "style" (.ofTree noteStyle), .plain "check" "condition",
      .plain "send" "step"]
    [.plain "e1" "write" "check", .guarded "e2" "check" "write" "not result",
      .guarded "e3" "check" "send" "result"]
    "write" 4

theorem note_storable : note.Storable := by
  have hstyle : ∀ n ∈ note.nodes, ∀ e ∈ n.config.entries, e.2 = .ofTree noteStyle := by
    simp [note, plain, Node.plain, Node.configure, Table.insert, Table.insertEntry, Table.empty]
  have hfinite : (Value.ofTree noteStyle).Finite :=
    ⟨⟨trivial, trivial, trivial, trivial⟩, trivial, trivial⟩
  refine ⟨by decide, fun n hn e he => ?_, fun n hn e he => ?_⟩
  · rw [hstyle n hn e he]
    exact hfinite
  · rw [hstyle n hn e he]
    exact Value.ordered_ofTree noteStyle

/-- The plan of `note`. -/
def notePlan : Plan :=
  ⟨note, ["write", "check", "send"], note.loops, note.validate bareKinds,
    Table.ofList [("write", []), ("check", ["write"]), ("send", ["check", "write"])]⟩

theorem notePlan_restored :
    note.plan bareKinds false = .ok notePlan ∧ note.Storable ∧
      Stored.ofTree Stored.plan notePlan.tree = .ok notePlan := by
  have hloops : note.loops = [⟨["write", "check"], "e2", true, some "check"⟩] := by cbv
  have hplan : note.plan bareKinds false = .ok notePlan :=
    plan_eq_ok hloops rfl rfl (by decide +kernel) rfl
  obtain ⟨_, _, hrestored⟩ := Plan.checkpoint_is_lossless note
  exact ⟨hplan, note_storable, hrestored bareKinds false notePlan hplan note_storable⟩

end Definition
end Workflow
