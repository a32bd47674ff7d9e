import Workflow.Event.Bus
import Workflow.Run.Clock
import Workflow.Run.Result
import Workflow.Settings
/-!
# Engines

An engine brings together what all its runs share: the catalog, the settings and the evaluator of
conditions.  Asking it for a run always gives a result; a workflow without a plan gives a failed
one.
-/
namespace Workflow

/-- What validates and runs workflows. -/
structure Engine where
  catalog : Catalog
  settings : Settings
  evaluator : Evaluator

namespace Engine

/-- An engine that judges conditions by the verdicts of their sources. -/
def ofCatalog (catalog : Catalog) (settings : Settings) : Engine :=
  ⟨catalog, settings, Guard.byVerdict⟩

def validate (e : Engine) (d : Definition) : Report := d.validate e.catalog

/-- The plan of a definition, as strict as the settings ask for. -/
def plan (e : Engine) (d : Definition) : Except PlanError Plan :=
  d.plan e.catalog e.settings.strict

variable {σ : Type}

/-- Runs a plan that was made before.  Nothing is validated any more, whatever the settings. -/
def executePlan (e : Engine) (p : Plan) (initial : Fields) (world : World σ) (w : σ) : Result × σ :=
  p.execute e.catalog e.evaluator e.settings.parallel initial world w

def execute (e : Engine) (d : Definition) (initial : Fields) (world : World σ) (w : σ) :
    Result × σ :=
  match e.plan d with
  | .error reason => (.unplanned reason, w)
  | .ok p => e.executePlan p initial world w

/-- The world of the simulated clock, with the time limit of the settings. -/
def clockWorld (e : Engine) (network : Http.Request → Http.Reply) : World Clock :=
  Clock.world network e.settings.timeLimit

/-- What a receiver that subscribed to the bus before the run gets after it. -/
def heard (e : Engine) (r : Result) : List (Bus.Received Event) :=
  let (receiver, bus) := (Bus.ofCapacity e.settings.eventBuffer).subscribe
  (r.events.foldl Bus.publish bus).drain receiver

end Engine
end Workflow
