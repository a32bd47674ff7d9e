import Workflow.Json.Basic
import Workflow.Definition.Flaw
/-!
# Findings and reports

A finding is one remark of a check about a workflow.  A report holds the findings of one check:
errors, which forbid a run, and warnings, which do not.
-/
namespace Workflow

/-- What a finding is about. -/
inductive Finding.Code where
  | circularDependency
  | invalidNodeConfig
  | unknownNodeKind
  | danglingNode
  | noOutgoingEdge
  | controlledLoop
  deriving DecidableEq

def Finding.Code.name : Finding.Code → String
  | .circularDependency => "CIRCULAR_DEPENDENCY"
  | .invalidNodeConfig => "INVALID_NODE_CONFIG"
  | .unknownNodeKind => "UNKNOWN_NODE_TYPE"
  | .danglingNode => "DANGLING_NODE"
  | .noOutgoingEdge => "NO_OUTGOING_EDGE"
  | .controlledLoop => "CONTROLLED_LOOP"

def Finding.Code.all : List Finding.Code :=
  [.circularDependency, .invalidNodeConfig, .unknownNodeKind, .danglingNode, .noOutgoingEdge,
    .controlledLoop]

def Finding.Code.ofName? (name : String) : Option Finding.Code :=
  Finding.Code.all.find? (fun c => c.name == name)

/-- One remark about a workflow: its code, its text, the nodes it is about, and details. -/
structure Finding where
  code : Finding.Code
  message : String
  nodes : List NodeId
  context : Table Json

namespace Finding

/-- A finding without details. -/
def plain (code : Finding.Code) (message : String) (nodes : List NodeId) : Finding :=
  ⟨code, message, nodes, .empty⟩

def addDetail (f : Finding) (key : String) (detail : Json) : Finding :=
  { f with context := f.context.insert key detail }

/-- The cycle that the details tell of; entries that are no names are passed over. -/
def cyclePath? (f : Finding) : Option (List NodeId) :=
  ((f.context.get? "cycle_path").bind Json.items?).map (fun items => items.filterMap Json.string?)

instance : BEq Finding :=
  ⟨fun a b => a.code == b.code && a.message == b.message && a.nodes == b.nodes &&
    a.context == b.context⟩

end Finding

/-- The findings of one check.  A stored report may say of itself what it likes; `Report.ofFindings`
calls one valid when it has no errors. -/
structure Report where
  valid : Bool
  errors : List Finding
  warnings : List Finding
  deriving BEq

namespace Report

def ofFindings (errors warnings : List Finding) : Report := ⟨errors.isEmpty, errors, warnings⟩

def hasWarnings (r : Report) : Bool := !r.warnings.isEmpty

/-- The errors in one line, or the number of warnings when there are none. -/
def summary (r : Report) : String :=
  match r.errors with
  | [] => "valid (" ++ toString r.warnings.length ++ " warnings)"
  | errors => "; ".intercalate (errors.map (fun f => f.code.name ++ ": " ++ f.message))

end Report
end Workflow
