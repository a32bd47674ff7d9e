import Workflow.Graph.Tally
/-!
# Loops component by component

The simple cycles of a graph may also be gathered from its strongly connected components, in
whatever order these come.  From each member of a component a search follows the edges in the order
of declaration, through members that the walk meets later, until it is back.  The circuits that are
found so are put in order by the rank of their first member.  Circuits that pass the same nodes
along different edges tell of one loop, of which the first circuit counts; and a back edge may be
ignored when every circuit that it is part of can be left.
-/
namespace Workflow

/-- A simple cycle with the edges that it takes. -/
structure Circuit where
  members : List NodeId
  /-- Where the edges stand among those of the definition; the last one leads back to the first
  member. -/
  edges : List Nat
  deriving DecidableEq

/-- What a survey of a graph finds. -/
structure Survey where
  loops : List Loop
  /-- The names of the back edges that an order may ignore. -/
  ignorable : List String

namespace Definition

/-- Where the walk meets a node. -/
def rank (d : Definition) (id : NodeId) : Nat := d.preorder.idxOf id

/-- The edges that leave a node: where they stand, and the nodes that they lead to. -/
def departures (d : Definition) (id : NodeId) : List (Nat × NodeId) :=
  (d.edges.zipIdx.filter (fun (e, _) => e.source == id)).map (fun (e, position) =>
    (position, e.target))

/-- The circuits that go on from `last` after `path`, along the edges `taken`, and pass only through
nodes of `scope` before they are back at `start`. -/
def circuits (d : Definition) (scope : List NodeId) (start : NodeId) (path : List NodeId)
    (taken : List Nat) (last : NodeId) : List Circuit :=
  (d.departures last).flatMap fun (position, next) =>
    if next = start then [⟨path, taken ++ [position]⟩]
    else if h : next ∈ scope ∧ next ∉ path then
      have := length_unvisited_lt h.1 h.2
      d.circuits scope start (path ++ [next]) (taken ++ [position]) next
    else []
termination_by (unvisited scope path).length

/-- The circuits through members of a component, told from the member that the walk meets first. -/
def circuitsFrom (d : Definition) (component : List NodeId) (start : NodeId) : List Circuit :=
  d.circuits (component.filter (fun id => d.rank start < d.rank id)) start [start] [] start

/-- The rank of the first member. -/
def circuitRank (d : Definition) (c : Circuit) : Nat := (c.members.head?.map d.rank).getD 0

/-- The circuits of all components by the rank of their first member.  Circuits of one first member
stay in the order in which they are found. -/
def circuitsOver (d : Definition) (components : List (List NodeId)) : List Circuit :=
  (components.flatMap fun component =>
    if component.length < 2 then [] else component.flatMap (d.circuitsFrom component)).mergeSort
      (fun a b => d.circuitRank a ≤ d.circuitRank b)

/-- The loop that a circuit tells of, with the last edge that the circuit takes. -/
def loopAlong (d : Definition) (c : Circuit) : Loop :=
  let exit := d.exit? c.members
  let back := (c.edges.getLast?.bind (d.edges[·]?)).map Edge.id
  ⟨c.members, back.getD "", exit.isSome, exit⟩

/-- The loops and the edges that may be ignored, found component by component. -/
def survey (d : Definition) (components : List (List NodeId)) : Survey :=
  let found := d.circuitsOver components
  let closing := found.filterMap (fun c => c.edges.getLast?)
  ⟨(found.eraseDupsBy (fun a b => a.members == b.members)).map d.loopAlong,
    (closing.filter (fun position => found.all (fun c =>
      (d.exit? c.members).isSome || !c.edges.contains position))).filterMap
        (fun position => (d.edges[position]?).map Edge.id)⟩

/-- The order of the nodes, found by a survey of the given components and by counting. -/
def surveyedOrder (d : Definition) (components : List (List NodeId)) :
    Option (Except (List NodeId) (List NodeId)) :=
  let ignorable := (d.survey components).ignorable
  d.countedOrder (d.edges.filter (fun e => !ignorable.contains e.id))

end Definition
end Workflow
