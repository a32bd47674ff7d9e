import Workflow.Graph.Loops
/-!
# The order of a graph

Controlled loops are cut open at their back edges; what is left is arranged so that every edge leads
forward.  Of the nodes that could come next the entry point is taken first and then the one declared
earliest.  If a loop stays closed, the nodes behind it cannot be arranged.
-/
namespace Workflow

/-- The pairs of neighbours of a loop, the step back to its first member included. -/
def Loop.steps (l : Loop) : List (NodeId × NodeId) := l.path.zip l.path.tail

/-- Whether an edge leads from one member of the loop to the next. -/
def Loop.passes (l : Loop) (e : Edge) : Bool := l.steps.contains (e.source, e.target)

/-- Whether an edge leads from the last member of the loop to its first. -/
def Loop.closedBy (l : Loop) (e : Edge) : Bool :=
  l.nodes.getLast? == some e.source && l.nodes.head? == some e.target

/-- Whether an edge is a back edge that the order may ignore: it closes a loop, and every loop that
it is part of is controlled. -/
def isIgnored (loops : List Loop) (e : Edge) : Bool :=
  loops.any (fun l => l.closedBy e) && loops.all (fun l => l.controlled || !l.passes e)

/-- Takes nodes from a list, time and again the first one none of whose predecessors is left.  Gives
the nodes in the order taken, and those that could not be taken. -/
def arrange {V : Type u} [DecidableEq V] (predecessors : V → List V) (remaining : List V) :
    List V × List V :=
  match h : remaining.find? (fun v => (predecessors v).all (fun p => p ∉ remaining)) with
  | none => ([], remaining)
  | some v =>
    have hv : v ∈ remaining := List.mem_of_find?_eq_some h
    have : (remaining.erase v).length < remaining.length := by
      rw [List.length_erase_of_mem hv]
      have := List.length_pos_of_mem hv
      omega
    let (order, stuck) := arrange predecessors (remaining.erase v)
    (v :: order, stuck)
termination_by remaining.length

namespace Definition

/-- The edges that the order respects. -/
def forwardEdges (d : Definition) (loops : List Loop) : List Edge :=
  d.edges.filter (fun e => !isIgnored loops e)

/-- The nodes from which an edge of the list leads to a node. -/
def sourcesOf (edges : List Edge) (id : NodeId) : List NodeId :=
  ((edges.filter (fun e => e.target == id)).map Edge.source).eraseDups

/-- The nodes in the order of precedence: the entry point, then the others as declared. -/
def byPrecedence (d : Definition) : List NodeId := d.entry :: d.ids.erase d.entry

/-- The order of the nodes along the given edges, or, in the order of declaration, the nodes that
cannot be arranged. -/
def orderAlong (d : Definition) (edges : List Edge) : Except (List NodeId) (List NodeId) :=
  match arrange (sourcesOf edges) d.byPrecedence with
  | (order, []) => .ok order
  | (_, stuck) => .error (d.ids.filter (fun id => stuck.contains id))

/-- The order of the nodes, or the nodes that cannot be arranged. -/
def order (d : Definition) : Except (List NodeId) (List NodeId) :=
  d.orderAlong (d.forwardEdges d.loops)

end Definition
end Workflow
