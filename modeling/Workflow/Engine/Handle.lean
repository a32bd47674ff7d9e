import Workflow.Engine
/-!
# Runs in the background

A handle watches a run that goes on by itself.  The run is pending until it gets its first turn,
then running until its end, and from then on it has the status of its result.  A workflow without
a plan is never running.
-/
namespace Workflow

/-- A run in the background: what it comes to, and when it ends. -/
structure Handle where
  result : Result
  endTime : Nat

namespace Handle

/-- The status before the first turn of the run. -/
def first : Status := .pending

/-- The status at a time after the first turn of the run. -/
def statusAt (h : Handle) (time : Nat) : Status :=
  if time < h.endTime then .running else h.result.status

def last (h : Handle) : Status := h.result.status

/-- The status at the moment of a cancellation.  A run that is not cancelled, and one that is
cancelled at once, has not had its first turn by then. -/
def statusWhenCancelled (h : Handle) : Option Nat → Status
  | none | some 0 => first
  | some time => h.statusAt time

end Handle

/-- Starts a run in the background on a simulated clock and cancels it at the given time. -/
def Engine.spawn (e : Engine) (d : Definition) (initial : Fields)
    (network : Http.Request → Http.Reply) (cancelTime : Option Nat) : Handle :=
  let (result, clock) := e.execute d initial (e.clockWorld network) (.start cancelTime none)
  ⟨result, clock.now⟩

end Workflow
