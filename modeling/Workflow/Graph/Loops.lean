import Workflow.Definition.Basic
import Workflow.Graph.Walk
/-!
# Loops

A loop is a simple cycle of a workflow, told from the member that a depth-first walk from the
entry point meets first.  Loops are found member by member: from each node of the walk, every way
back to it that passes only through nodes met later.  A loop is controlled when exactly one of its
members is a condition and that member has an edge out of the loop.
-/
namespace Workflow

/-- A simple cycle. -/
structure Loop where
  /-- The members in the order of the cycle, from the one that the walk meets first. -/
  nodes : List NodeId
  /-- The edge from the last member back to the first. -/
  backEdge : String
  controlled : Bool
  /-- The condition that leaves the loop. -/
  exit : Option NodeId
  deriving DecidableEq

/-- The members with the first one repeated at the end. -/
def Loop.path (l : Loop) : List NodeId := l.nodes ++ l.nodes.head?.toList

def Loop.contains (l : Loop) (id : NodeId) : Bool := l.nodes.contains id

namespace Definition

/-- The nodes that edges of a node lead to, in the order of the edges, each once. -/
def successors (d : Definition) (id : NodeId) : List NodeId :=
  ((d.outgoing id).map Edge.target).eraseDups

/-- The nodes whose edges lead to a node, in the order of the edges, each once. -/
def predecessors (d : Definition) (id : NodeId) : List NodeId :=
  ((d.incoming id).map Edge.source).eraseDups

/-- All nodes in the order of a depth-first walk that starts at the entry point and goes on with the
nodes in the order of declaration. -/
def preorder (d : Definition) : List NodeId :=
  walk d.successors d.ids (d.entry :: d.ids) []

/-- The nodes that can be reached from a node, itself among them. -/
def reachable (d : Definition) (id : NodeId) : List NodeId :=
  walk d.successors d.ids [id] []

/-- The nodes from which a node can be reached, itself among them. -/
def coreachable (d : Definition) (id : NodeId) : List NodeId :=
  walk d.predecessors d.ids [id] []

/-- Every way from `last` back to `start` through nodes of `free`, none twice: the nodes passed on
the way.  Ways come in the order of the edges taken. -/
def waysBack (d : Definition) (start last : NodeId) (free : List NodeId) : List (List NodeId) :=
  (d.successors last).flatMap fun next =>
    if next = start then [[]]
    else if h : next ∈ free then
      have : (free.erase next).length < free.length := by
        rw [List.length_erase_of_mem h]
        have := List.length_pos_of_mem h
        omega
      (waysBack d start next (free.erase next)).map (next :: ·)
    else []
termination_by free.length

/-- The nodes that a loop from `start` may pass: those that lie on a cycle with it and that the walk
meets later. -/
def loopScope (d : Definition) (start : NodeId) (later : List NodeId) : List NodeId :=
  let forth := d.reachable start
  let back := d.coreachable start
  later.filter (fun id => forth.contains id && back.contains id)

/-- The simple cycles as lists of members, for the nodes of a walk from some point on. -/
def cyclesFrom (d : Definition) : List NodeId → List (List NodeId)
  | [] => []
  | start :: later =>
    (d.waysBack start start (d.loopScope start later)).map (start :: ·) ++ d.cyclesFrom later

/-- Every simple cycle, each told once. -/
def cycles (d : Definition) : List (List NodeId) := d.cyclesFrom d.preorder

/-- The condition that leaves a cycle: its only condition, if that has an edge out of the cycle. -/
def exit? (d : Definition) (members : List NodeId) : Option NodeId :=
  match members.filter (fun id => (d.node? id).any (fun n => n.kind == conditionKind)) with
  | [c] => if (d.outgoing c).any (fun e => !members.contains e.target) then some c else none
  | _ => none

/-- The first edge from one node to another. -/
def edge? (d : Definition) (source target : NodeId) : Option Edge :=
  (d.outgoing source).find? (fun e => e.target == target)

def loopOf (d : Definition) (members : List NodeId) : Loop :=
  let exit := d.exit? members
  let back := (members.getLast?.bind (fun last => members.head?.bind (d.edge? last))).map Edge.id
  ⟨members, back.getD "", exit.isSome, exit⟩

/-- Every loop of the graph, controlled or not. -/
def loops (d : Definition) : List Loop := d.cycles.map d.loopOf

/-- The first loop that is not controlled. -/
def uncontrolled? (d : Definition) : Option Loop := d.loops.find? (fun l => !l.controlled)

/-- The nodes without any edge, the entry point excepted. -/
def dangling (d : Definition) : List NodeId :=
  d.ids.filter (fun id =>
    id != d.entry && (d.incoming id).isEmpty && (d.outgoing id).isEmpty)

/-- The nodes that no edge leaves. -/
def terminal (d : Definition) : List NodeId :=
  d.ids.filter (fun id => (d.outgoing id).isEmpty)

end Definition
end Workflow
