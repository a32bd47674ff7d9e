import Workflow.Plan
import Workflow.Stored.Definition
import Workflow.Stored.Report
/-!
# Stored plans

A plan can be stored between making and running it.  A stored plan is taken at its word: only its
definition is checked.
-/
namespace Workflow

/-- An optional text as a tree. -/
def optionalText (s : Option String) : Json := Json.ofOption (s.map .string)

def Loop.tree (l : Loop) : Json :=
  .object [("nodes", Json.strings l.nodes), ("back_edge", .string l.backEdge),
    ("has_condition_exit", .bool l.controlled), ("condition_node_id", optionalText l.exit)]

def Plan.tree (p : Plan) : Json :=
  .object [("definition", p.definition.tree), ("order", Json.strings p.order),
    ("loops", .array (p.loops.map Loop.tree)), ("validation", p.report.tree),
    ("ancestors", Json.ofTable (p.ancestors.map Json.strings))]

namespace Stored

def loop : Reader Loop :=
  record "LoopInfo"
    [required "nodes" (list text) (fun v l => { l with nodes := v }),
      required "back_edge" text (fun v l => { l with backEdge := v }),
      required "has_condition_exit" truth (fun v l => { l with controlled := v }),
      nullable "condition_node_id" text (fun v l => { l with exit := v })]
    ⟨[], "", false, none⟩

/-- A plan while it is read: its definition is still to come. -/
structure PlanParts where
  definition : Option Definition
  order : List NodeId
  loops : List Loop
  report : Report
  ancestors : Table (List NodeId)

/-- Reads the parts of a plan. -/
def planParts : Reader PlanParts :=
  record "ExecutablePlan"
    [required "definition" definition (fun v p => { p with definition := some v }),
      required "order" (list text) (fun v p => { p with order := v }),
      required "loops" (list loop) (fun v p => { p with loops := v }),
      required "validation" report (fun v p => { p with report := v }),
      required "ancestors" (table (list text))
        (fun v p => { p with ancestors := v.map sortedNames })]
    ⟨none, [], [], ⟨true, [], []⟩, .empty⟩

def plan : Reader Plan := fun depth d =>
  match planParts depth d with
  | .error e => .error e
  | .ok p =>
    match p.definition with
    | some w => .ok ⟨w, p.order, p.loops, p.report, p.ancestors⟩
    | none => .error (.mismatch "missing field `definition`" none)

end Stored
end Workflow
