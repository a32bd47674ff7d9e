import Workflow.Run.Drive
/-!
# The result of a run

A run that is asked for always gives a result.  One whose plan could not be made, or whose nodes
could not be set up, fails before its first event.
-/
namespace Workflow

/-- Where a run stands. -/
inductive Status where
  | pending
  | running
  | completed
  | failed
  | capped
  | cancelled
  deriving DecidableEq

namespace Status

def isTerminal : Status → Bool
  | .pending | .running => false
  | _ => true

/-- The name of a status in stored text. -/
def name : Status → String
  | .pending => "pending"
  | .running => "running"
  | .completed => "completed"
  | .failed => "failed"
  | .capped => "loop_terminated"
  | .cancelled => "cancelled"

/-- The name of a status in messages. -/
def label : Status → String
  | .pending => "Pending"
  | .running => "Running"
  | .completed => "Completed"
  | .failed => "Failed"
  | .capped => "LoopTerminated"
  | .cancelled => "Cancelled"

/-- Whether the run did what it was asked for.  A run stopped by the cap did. -/
def isSuccess (s : Status) : Bool := s == .completed || s == .capped

end Status

/-- What a run came to. -/
structure Result where
  status : Status
  /-- The node that was about to run too often. -/
  cappedNode : Option NodeId
  /-- The latest outputs of every node that ran. -/
  outputs : Table Fields
  counts : Table Nat
  error : Option String
  /-- The report of the validation, when that is why there was no run. -/
  report : Option Report
  /-- What happened, the latest first. -/
  trace : List Moment

namespace Result

def count (r : Result) (id : NodeId) : Nat := (r.counts.get? id).getD 0

def output? (r : Result) (id : NodeId) (key : String) : Option Value :=
  (r.outputs.get? id).bind (fun fields => fields.get? key)

def events (r : Result) : List Event :=
  r.trace.reverse.filterMap (fun m => match m with
    | .event e => some e
    | _ => none)

def judgements (r : Result) : List Judgement :=
  r.trace.reverse.filterMap (fun m => match m with
    | .judged g => some g
    | _ => none)

/-- A run that failed before its first event. -/
def unstarted (error : String) (report : Option Report) : Result :=
  ⟨.failed, none, .empty, .empty, some error, report, []⟩

/-- A run whose plan could not be made. -/
def unplanned (e : PlanError) : Result := unstarted e.message e.report?

end Result

namespace Job

/-- Makes every node ready, in the order of declaration, or tells which one cannot be. -/
def instancesOf (c : Catalog) : List Node → Except RunError (List (NodeId × Instance))
  | [] => .ok []
  | n :: rest =>
    match c.instantiate n with
    | .error e => .error (.setup n.id e.message)
    | .ok i => (instancesOf c rest).map ((n.id, i) :: ·)

/-- Looks a node up among the nodes made ready. -/
def lookupDeclared (ids : List NodeId) (l : List (NodeId × Instance)) (id : NodeId) :
    Option Instance :=
  if id ∈ ids then l.lookup id else none

theorem mem_of_lookupDeclared {ids : List NodeId} {l : List (NodeId × Instance)} {id : NodeId}
    {i : Instance} (h : lookupDeclared ids l id = some i) : id ∈ ids := by
  unfold lookupDeclared at h
  split at h
  · assumption
  · cases h

/-- The job of running a plan. -/
def make? (c : Catalog) (evaluator : Evaluator) (parallel : Nat) (plan : Plan) (initial : Fields) :
    Except RunError Job :=
  (instancesOf c plan.definition.nodes).map (fun l =>
    { plan, evaluator, parallel, initial
      instance? := lookupDeclared plan.definition.ids l
      instance_declared := fun _ _ h => mem_of_lookupDeclared h })

/-- The event that a run starts with. -/
def startEvent (j : Job) : Event :=
  .started j.definition.name j.definition.entry j.definition.nodes.length j.plan.hasLoops j.cap

end Job

namespace Run

/-- The status of a run that has ended. -/
def status (r : Run) : Status :=
  match r.error, r.stop with
  | some _, _ => .failed
  | none, none => .completed
  | none, some (.capReached _ _) => .capped
  | none, some .cancelled => .cancelled

/-- The events that a run ends with.  A failed or cancelled run ends without a word. -/
def endEvents (j : Job) (r : Run) : List Event :=
  match r.error, r.stop with
  | none, none => [.completed true false r.counts]
  | none, some (.capReached id count) =>
    [.capReached id count j.cap, .completed true true r.counts]
  | _, _ => []

/-- The node at which the cap stopped the run. -/
def cappedNode (r : Run) : Option NodeId :=
  match r.error, r.stop with
  | none, some (.capReached id _) => some id
  | _, _ => none

/-- The result of a run that has ended. -/
def result (j : Job) (r : Run) : Result :=
  { status := r.status
    cappedNode := r.cappedNode
    outputs := r.outputs
    counts := r.counts
    error := r.error.map RunError.message
    report := none
    trace := (r.noteAll ((r.endEvents j).map .event)).trace }

end Run

variable {σ : Type}

/-- Carries out a job: tells that it starts, drives the run to its end, and tells how it ended. -/
def Job.execute (j : Job) (world : World σ) (w : σ) : Result × σ :=
  let start : List Moment := [.event j.startEvent]
  let (r, w') := Run.drive j world ((Run.start j).noteAll start) (start.foldl world.observe w)
  (r.result j, ((r.endEvents j).map Moment.event).foldl world.observe w')

/-- Runs a plan. -/
def Plan.execute (p : Plan) (c : Catalog) (evaluator : Evaluator) (parallel : Nat)
    (initial : Fields) (world : World σ) (w : σ) : Result × σ :=
  match Job.make? c evaluator parallel p initial with
  | .error e => (.unstarted e.message none, w)
  | .ok j => j.execute world w

end Workflow
