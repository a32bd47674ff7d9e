import Workflow.Standard.Collector
import Workflow.Standard.Condition
import Workflow.Standard.Delay
import Workflow.Standard.Processor
import Workflow.Standard.Request
import Workflow.Standard.Source
/-!
# The standard kinds
-/
namespace Workflow.Standard

def kinds : List Kind :=
  [Source.kind, Processor.kind, Request.kind, Condition.kind, Collector.kind, Delay.kind]

def catalog : Catalog := (Catalog.empty.registerAll kinds).toOption.getD .empty

end Workflow.Standard
