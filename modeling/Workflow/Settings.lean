/-!
# Settings

What can be set for all runs of an engine.
-/
namespace Workflow

/-- The settings of an engine. -/
structure Settings where
  /-- How many executions of one run may be in flight; zero counts as one. -/
  parallel : Nat
  /-- How many events the bus keeps. -/
  eventBuffer : Nat
  /-- Whether warnings forbid a run as errors do. -/
  strict : Bool
  /-- How long an execution may take, in milliseconds. -/
  timeLimit : Option Nat
  deriving DecidableEq

/-- The settings that hold when nothing is said. -/
def Settings.standard : Settings := ⟨10, 1000, false, none⟩

end Workflow
