import Workflow.Definition.Basic
/-!
# Drafts

A draft is a workflow as it is written down, before anything is checked.  `Draft.build?` turns it
into a definition and `Definition.draft` writes a definition down again.
-/
namespace Workflow

/-- A node as it is written down. -/
structure NodeDraft where
  id : NodeId
  kind : String
  config : Fields

/-- An edge as it is written down.  An empty name asks for a generated one. -/
structure EdgeDraft where
  id : String
  source : NodeId
  target : NodeId
  condition : Option String

/-- A workflow as it is written down. -/
structure Draft where
  name : String
  nodes : List NodeDraft
  edges : List EdgeDraft
  entry : Option NodeId
  cap : Option Nat

namespace Draft

def start (name : String) : Draft := ⟨name, [], [], none, none⟩

def addNode (d : Draft) (id : NodeId) (kind : String) (config : Fields) : Draft :=
  { d with nodes := d.nodes ++ [⟨id, kind, config⟩] }

/-- The name generated for the edge at a position that counts from one. -/
def edgeName (position : Nat) : String := "e" ++ toString position

/-- Adds an edge under a generated name. -/
def addEdge (d : Draft) (source target : NodeId) (condition : Option String) : Draft :=
  { d with edges := d.edges ++ [⟨edgeName (d.edges.length + 1), source, target, condition⟩] }

def startAt (d : Draft) (entry : NodeId) : Draft := { d with entry := some entry }

def limit (d : Draft) (cap : Nat) : Draft := { d with cap := some cap }

/-- The nodes, or the first flaw among them. -/
def buildNodes : List NodeDraft → Except Flaw (List Node)
  | [] => .ok []
  | n :: rest =>
    match Node.make? n.id n.kind n.config with
    | .error flaw => .error flaw
    | .ok node => (buildNodes rest).map (node :: ·)

/-- The edges from a position on, or the first flaw among them.  An edge without a name is named
after its position. -/
def buildEdges (position : Nat) : List EdgeDraft → Except Flaw (List Edge)
  | [] => .ok []
  | e :: rest =>
    let id := if e.id = "" then edgeName position else e.id
    match Edge.make? id e.source e.target e.condition with
    | .error flaw => .error flaw
    | .ok edge => (buildEdges (position + 1) rest).map (edge :: ·)

/-- The definition of a draft: first every node is checked, then every edge, then the whole. -/
def build? (d : Draft) : Except Flaw Definition :=
  match buildNodes d.nodes with
  | .error flaw => .error flaw
  | .ok nodes =>
    match buildEdges 1 d.edges with
    | .error flaw => .error flaw
    | .ok edges => Definition.make? d.name nodes edges d.entry d.cap

end Draft

def Node.draft (n : Node) : NodeDraft := ⟨n.id, n.kind, n.config⟩

def Edge.draft (e : Edge) : EdgeDraft := ⟨e.id, e.source, e.target, e.condition⟩

def Definition.draft (d : Definition) : Draft :=
  ⟨d.name, d.nodes.map Node.draft, d.edges.map Edge.draft, some d.entry, some d.cap⟩

end Workflow
