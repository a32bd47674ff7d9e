import Workflow.Settings
import Workflow.Stored.Reader
/-!
# Stored settings

Every setting may be missing and then has its standard value.
-/
namespace Workflow.Stored

def settings : Reader Settings :=
  record "RuntimeConfig"
    [defaulted "max_parallel_nodes" size (fun v s => { s with parallel := v }),
      defaulted "event_buffer_size" size (fun v s => { s with eventBuffer := v }),
      defaulted "strict_validation" truth (fun v s => { s with strict := v }),
      defaulted "node_timeout_ms" (optional whole64) (fun v s => { s with timeLimit := v })]
    Settings.standard

end Workflow.Stored
