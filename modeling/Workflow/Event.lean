import Workflow.Definition.Flaw
import Workflow.Table
/-!
# Events

What a run tells the outside while it goes on: that it starts, that a node runs again, that the cap
stopped it, and that it is complete.
-/
namespace Workflow

/-- Something that happened in a run. -/
inductive Event where
  | started (workflow : String) (entry : NodeId) (nodes : Nat) (hasLoops : Bool) (cap : Nat)
  | repeated (node : NodeId) (iteration : Nat)
  | capReached (node : NodeId) (count cap : Nat)
  | completed (success capped : Bool) (counts : Table Nat)
  deriving BEq

def Event.name : Event → String
  | .started .. => "workflow_start"
  | .repeated .. => "loop_iteration"
  | .capReached .. => "loop_terminated"
  | .completed .. => "workflow_complete"

end Workflow
