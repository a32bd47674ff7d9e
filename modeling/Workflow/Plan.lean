import Workflow.Graph.Order
import Workflow.Validation
/-!
# Plans

A plan is a definition that passed its validation, together with what a run needs to know about it:
the order of its nodes, its loops, and for each node the nodes that precede it.  One node precedes
another when a path of forward edges leads from it to the other.
-/
namespace Workflow

/-- A workflow that is ready to run. -/
structure Plan where
  definition : Definition
  order : List NodeId
  loops : List Loop
  report : Report
  /-- The nodes that precede each node, in increasing order. -/
  ancestors : Table (List NodeId)

/-- Why there is no plan. -/
inductive PlanError where
  /-- The validation found something. -/
  | rejected (report : Report)
  /-- The nodes of loops that stay closed, and those behind them, cannot be arranged. -/
  | tangled (nodes : List NodeId)

def PlanError.message : PlanError → String
  | .rejected r => "workflow validation failed: " ++ r.summary
  | .tangled nodes => "graph contains uncontrolled cycles through: " ++ ", ".intercalate nodes

def PlanError.report? : PlanError → Option Report
  | .rejected r => some r
  | .tangled _ => none

/-- Names in increasing order, each once. -/
def sortedNames (l : List String) : List String :=
  (Table.ofList (l.map (fun s => (s, ())))).keys

namespace Definition

/-- Hands a node, and what precedes it, on to the node that an edge leads to. -/
def handOn (id : NodeId) (inherited : List NodeId) (known : Table (List NodeId)) (e : Edge) :
    Table (List NodeId) :=
  match known.get? e.target with
  | some before => known.insert e.target (sortedNames (id :: inherited ++ before))
  | none => known

/-- Hands a node, and what is known to precede it, on along its edges. -/
def handOnAll (edges : List Edge) (known : Table (List NodeId)) (id : NodeId) :
    Table (List NodeId) :=
  (edges.filter (fun e => e.source == id)).foldl (handOn id ((known.get? id).getD [])) known

/-- What precedes each node along the edges, found in one pass over an order of the nodes. -/
def ancestorsAlong (d : Definition) (edges : List Edge) (order : List NodeId) :
    Table (List NodeId) :=
  order.foldl (handOnAll edges) (Table.ofList (d.ids.map (fun id => (id, []))))

/-- The plan of a definition whose report is known. -/
def planWith (d : Definition) (report : Report) : Except PlanError Plan :=
  let loops := d.loops
  let forward := d.forwardEdges loops
  match d.orderAlong forward with
  | .error stuck => .error (.tangled stuck)
  | .ok order =>
    .ok ⟨d, order, loops, report, d.ancestorsAlong forward order⟩

/-- The plan of a definition.  There is none if the validation finds an error, nor, in strict
mode, if it finds anything at all. -/
def plan (d : Definition) (c : Catalog) (strict : Bool) : Except PlanError Plan :=
  let report := d.validate c
  if !report.valid || (strict && report.hasWarnings) then .error (.rejected report)
  else d.planWith report

end Definition

namespace Plan

def hasLoops (p : Plan) : Bool := !p.loops.isEmpty

/-- Whether a path of forward edges leads from one node to another. -/
def precedes (p : Plan) (ancestor node : NodeId) : Bool :=
  ((p.ancestors.get? node).getD []).contains ancestor

end Plan
end Workflow
