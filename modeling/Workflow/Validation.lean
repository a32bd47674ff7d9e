import Workflow.Catalog
import Workflow.Graph.Loops
import Workflow.Report
/-!
# Validation

Checks a definition against a catalog.  The structure comes first: a loop that is not controlled
is an error, and controlled loops, nodes without edges and nodes without outgoing edges are
warnings.  Then every node is made and asked about its configuration.
-/
namespace Workflow

def arrows (path : List NodeId) : String := " -> ".intercalate path

namespace Definition

/-- The error about the first loop that is not controlled. -/
def circularErrors (loops : List Loop) : List Finding :=
  match loops.find? (fun l => !l.controlled) with
  | none => []
  | some l =>
    [((Finding.plain .circularDependency ("Circular dependency detected: " ++ arrows l.path)
      l.nodes).addDetail "cycle_path" (Json.strings l.path)).addDetail "back_edge"
        (.string l.backEdge)]

/-- The warning about a loop that its condition can leave. -/
def controlledWarning (l : Loop) : Option Finding :=
  match l.controlled, l.exit with
  | true, some c =>
    some (((Finding.plain .controlledLoop
      ("Loop " ++ arrows l.path ++ " is controlled by condition node '" ++ c ++ "'")
      [c]).addDetail "condition_node_id" (.string c)).addDetail "cycle_path"
        (Json.strings l.path))
  | _, _ => none

/-- The warnings about the edges of a node. -/
def edgeWarnings (d : Definition) (id : NodeId) : List Finding :=
  (if d.dangling.contains id then
    [Finding.plain .danglingNode ("Node '" ++ id ++ "' is not connected to any other node") [id]]
  else []) ++
  (if d.terminal.contains id then
    [Finding.plain .noOutgoingEdge ("Node '" ++ id ++ "' has no outgoing edges") [id]]
  else [])

/-- Remarks about fields as a tree. -/
def problemsTree (problems : List Problem) : Json :=
  .array (problems.map (fun p => .object [("error", .string p.text), ("field", .string p.field)]))

/-- The error about a node that cannot be made or is not configured well. -/
def nodeError (c : Catalog) (n : Node) : Option Finding :=
  match c.instantiate n with
  | .ok i =>
    match i.problems with
    | [] => none
    | problems =>
      let remarks := "; ".intercalate (problems.map (fun p => p.field ++ ": " ++ p.text))
      some ((Finding.plain .invalidNodeConfig
        ("Node '" ++ n.id ++ "' has invalid configuration: " ++ remarks) [n.id]).addDetail
          "field_errors" (problemsTree problems))
  | .error (.flaw (.unknownKind kind)) =>
    some ((Finding.plain .unknownNodeKind
      ("Node '" ++ n.id ++ "' has unknown type '" ++ kind ++ "'") [n.id]).addDetail
        "node_type" (.string kind))
  | .error e =>
    some ((Finding.plain .invalidNodeConfig
      ("Node '" ++ n.id ++ "' could not be created: " ++ e.message) [n.id]).addDetail
        "node_type" (.string n.kind))

def validate (d : Definition) (c : Catalog) : Report :=
  let loops := d.loops
  .ofFindings
    (circularErrors loops ++ d.nodes.filterMap (nodeError c))
    (loops.filterMap controlledWarning ++ d.ids.flatMap d.edgeWarnings)

end Definition
end Workflow
