import Workflow.Definition.Draft
/-!
# An example workflow

The workflow that a newcomer starts from: a counter that is raised until it exceeds five.
-/
namespace Workflow.CommandLine

/-- The configuration of the listed texts. -/
def texts (l : List (String × String)) : Fields :=
  Table.ofList (l.map (fun (k, s) => (k, .string s)))

/-- The counter loop. -/
def exampleDraft : Draft :=
  (Draft.start "Example counter loop")
    |>.addNode "start" "data_source" (texts [("state_key", "count")])
    |>.addNode "increment" "data_processor"
      (texts [("operation", "increment"), ("source", "check")])
    |>.addNode "check" "condition"
      ((texts [("operator", "greater_than")]).insert "value" (.number 5.0))
    |>.addNode "done" "output" .empty
    |>.addEdge "start" "increment" none
    |>.addEdge "increment" "check" none
    |>.addEdge "check" "increment" (some "false")
    |>.addEdge "check" "done" (some "true")
    |>.limit 10

/-- The example can be built. -/
example : exampleDraft.build?.isOk = true := by decide +kernel

end Workflow.CommandLine
