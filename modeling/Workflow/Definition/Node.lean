import Workflow.Definition.Flaw
import Workflow.Text.Blank
import Workflow.Value
/-!
# Nodes and edges

The parts of a workflow graph.  A node names its kind, which is looked up only when the workflow is
checked against a catalog.  An edge leads from one node to a different one and may carry a
condition; a blank condition is none.
-/
namespace Workflow

/-- A step of a workflow. -/
structure Node where
  id : NodeId
  kind : String
  config : Fields
  id_shown : Text.isBlank id = false
  kind_shown : Text.isBlank kind = false

namespace Node

/-- A node with a name and a kind that are not blank. -/
def make? (id : NodeId) (kind : String) (config : Fields) : Except Flaw Node :=
  match hid : Text.isBlank id with
  | true => .error .emptyNodeId
  | false =>
    match hkind : Text.isBlank kind with
    | true => .error (.emptyNodeKind id)
    | false => .ok ⟨id, kind, config, hid, hkind⟩

def get? (n : Node) (key : String) : Option Value := n.config.get? key

/-- The node with one more configured value. -/
def configure (n : Node) (key : String) (value : Value) : Node :=
  { n with config := n.config.insert key value }

instance : BEq Node := ⟨fun a b => a.id == b.id && a.kind == b.kind && a.config == b.config⟩

end Node

/-- A connection from one node to another. -/
structure Edge where
  id : String
  source : NodeId
  target : NodeId
  condition : Option String
  id_shown : Text.isBlank id = false
  source_shown : Text.isBlank source = false
  target_shown : Text.isBlank target = false
  ends_differ : source ≠ target
  condition_shown : ∀ c, condition = some c → Text.isBlank c = false

namespace Edge

/-- A condition that is not blank. -/
def shownCondition (condition : Option String) : Option String :=
  condition.filter (fun c => !Text.isBlank c)

theorem isBlank_of_shownCondition {condition : Option String} {c : String}
    (h : shownCondition condition = some c) : Text.isBlank c = false := by
  have := (Option.filter_eq_some_iff.mp h).2
  simpa using this

/-- An edge between two different nodes.  A blank condition is dropped. -/
def make? (id : String) (source target : NodeId) (condition : Option String) :
    Except Flaw Edge :=
  match hid : Text.isBlank id with
  | true => .error .emptyEdgeId
  | false =>
    match hs : Text.isBlank source, ht : Text.isBlank target with
    | true, _ => .error .emptyNodeId
    | false, true => .error .emptyNodeId
    | false, false =>
      if hne : source = target then .error (.selfLoop id source)
      else
        .ok ⟨id, source, target, shownCondition condition, hid, hs, ht, hne,
          fun _ h => isBlank_of_shownCondition h⟩

def isConditional (e : Edge) : Bool := e.condition.isSome

instance : BEq Edge :=
  ⟨fun a b => a.id == b.id && a.source == b.source && a.target == b.target &&
    a.condition == b.condition⟩

end Edge

/-- The kind of node whose verdict chooses a branch or leaves a loop. -/
def conditionKind : String := "condition"

end Workflow
