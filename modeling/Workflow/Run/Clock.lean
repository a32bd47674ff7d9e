import Workflow.Run.Drive
/-!
# Runs on a simulated clock

A world in which pauses take exactly the time they ask for and everything else takes none.  The
execution that ends first is handled first, and of several that end together the one that started
first.  An execution that takes longer than the time limit fails at the limit.  The run can be
cancelled at a given time or by a given event.
-/
namespace Workflow

/-- A simulated clock, with what it must remember of the run. -/
structure Clock where
  now : Nat
  /-- When the run is, or was, cancelled. -/
  cancelTime : Option Nat
  /-- The number of the event by which the run is cancelled; events count from zero. -/
  cancelEvent : Option Nat
  /-- How many events there were. -/
  events : Nat
  /-- When each node last started. -/
  startTimes : Table Nat

namespace Clock

def start (cancelTime cancelEvent : Option Nat) : Clock :=
  ⟨0, cancelTime, cancelEvent, 0, .empty⟩

def isCancelled (c : Clock) : Bool := c.cancelTime.any (fun t => t ≤ c.now)

/-- Takes note of what happens: counts events and remembers when nodes start. -/
def observe (c : Clock) : Moment → Clock
  | .event _ =>
    { c with
      events := c.events + 1
      cancelTime :=
        if c.cancelEvent = some c.events then some (min c.now (c.cancelTime.getD c.now))
        else c.cancelTime }
  | .dispatched id _ _ => { c with startTimes := c.startTimes.insert id c.now }
  | _ => c

end Clock

/-- When and how an activity that begins at a time ends, if the run is cancelled at `cancelTime`. -/
def Activity.finish (network : Http.Request → Http.Reply) (cancelTime : Option Nat) (time : Nat) :
    Activity → Nat × Outcome
  | .done outcome => (time, outcome)
  | .sleep millis next => next.finish network cancelTime (time + millis)
  | .wait millis next interrupted =>
    match cancelTime with
    | some c =>
      if c ≤ time ∨ c < time + millis then interrupted.finish network cancelTime (max c time)
      else next.finish network cancelTime (time + millis)
    | none => next.finish network cancelTime (time + millis)
  | .send request next interrupted =>
    if cancelTime.any (fun c => c ≤ time) then interrupted.finish network cancelTime time
    else (next (network request)).finish network cancelTime time

/-- When and how an execution that starts at a time ends, if no execution may take longer than the
limit. -/
def Execution.finish (network : Http.Request → Http.Reply) (limit cancelTime : Option Nat)
    (startTime : Nat) (e : Execution) : Nat × Outcome :=
  let (time, outcome) := e.activity.finish network cancelTime startTime
  match limit with
  | some l =>
    if startTime + l < time then (startTime + l, .error (.timedOut l)) else (time, outcome)
  | none => (time, outcome)

namespace Clock

/-- The end of an execution in flight. -/
structure Finish (n : Nat) where
  index : Fin n
  time : Nat
  outcome : Outcome

/-- The earlier of two ends, and the first of two at one time. -/
def Finish.earlier {n : Nat} (a b : Finish n) : Finish n := if b.time < a.time then b else a

/-- The next execution to end. -/
def next (network : Http.Request → Http.Reply) (limit : Option Nat) (c : Clock)
    (l : List Execution) (hne : l ≠ []) : Fin l.length × Outcome × Clock :=
  let finish (i : Fin l.length) : Finish l.length :=
    let e := l[i]
    let (time, outcome) :=
      e.finish network limit c.cancelTime ((c.startTimes.get? e.node).getD c.now)
    ⟨i, time, outcome⟩
  let first := (List.finRange l.length).foldl (fun a i => a.earlier (finish i))
    (finish ⟨0, List.length_pos_iff.mpr hne⟩)
  (first.index, first.outcome, { c with now := max c.now first.time })

/-- The world of a simulated clock. -/
def world (network : Http.Request → Http.Reply) (limit : Option Nat) : World Clock where
  cancelled := isCancelled
  observe := observe
  next := next network limit

end Clock
end Workflow
