/-!
# Flaws

A flaw is a reason why a workflow or a kind of node is refused when it is put together.  Flaws are
never reported as findings about a finished workflow.
-/
namespace Workflow

/-- The name of a node within its workflow. -/
abbrev NodeId := String

/-- Why a workflow or a kind of node is refused. -/
inductive Flaw where
  | emptyNodeId
  | emptyNodeKind (node : NodeId)
  | emptyEdgeId
  | selfLoop (edge : String) (node : NodeId)
  | duplicateNode (node : NodeId)
  | duplicateEdge (edge : String)
  | unknownEndpoint (edge : String) (node : NodeId)
  | noNodes
  | ambiguousEntry (candidates : List NodeId)
  | unknownEntry (node : NodeId)
  | invalidCap (cap : Nat)
  | unknownKind (kind : String)
  | invalidEntry (reason : String)
  | catalogInstalled
  deriving DecidableEq

def Flaw.message : Flaw → String
  | .emptyNodeId => "node id must not be empty"
  | .emptyNodeKind n => "node '" ++ n ++ "' has an empty type"
  | .emptyEdgeId => "edge id must not be empty"
  | .selfLoop e n => "edge '" ++ e ++ "' is a self-loop on node '" ++ n ++ "'"
  | .duplicateNode n => "duplicate node id: " ++ n
  | .duplicateEdge e => "duplicate edge id: " ++ e
  | .unknownEndpoint e n => "edge '" ++ e ++ "' references unknown node '" ++ n ++ "'"
  | .noNodes => "workflow has no nodes"
  | .ambiguousEntry l => "entry point is ambiguous, candidates: " ++ ", ".intercalate l
  | .unknownEntry n => "entry point '" ++ n ++ "' is not a declared node"
  | .invalidCap c => "max_iterations must be at least 1, got " ++ toString c
  | .unknownKind k => "Unknown node type: " ++ k
  | .invalidEntry r => "invalid node definition: " ++ r
  | .catalogInstalled => "a global node registry is already installed"

end Workflow
