import Workflow.Catalog
/-!
# Collectors

A collector, the kind `output`, hands on all its inputs as one object.
-/
namespace Workflow.Standard.Collector

/-- Hands on the inputs by producer, and the first `data` among them. -/
def execute (c : Context) : Activity :=
  .done (.ok (.ofList [("result", c.mergedInputs), ("data", (c.findInput "data").getD .null)]))

def kind : Kind where
  name := "output"
  description :=
    { kind := "output"
      title := "Output"
      about := "Collects upstream results"
      category := "output"
      inputs := .object [("data", .string "any")]
      outputs := .object [("data", .string "any"), ("result", .string "object")]
      icon := some "flag"
      color := none }
  create _ := .ok ⟨"output", [], execute⟩

end Workflow.Standard.Collector
