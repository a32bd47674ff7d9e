import Workflow.Event
import Workflow.Guard
import Workflow.Plan
/-!
# The state of a run

A run starts executions of ready nodes, up to a limit, and handles one completed execution after
the other.  This module holds what a run is given (`Job`), what it has come to (`Run`), and its
two kinds of step: `Run.launch` starts one execution and `Run.complete` handles one that ended.
Each start uses up some of the budget of executions, so a run ends whatever its nodes do.
-/
namespace Workflow

/-- Why a run failed. -/
inductive RunError where
  | setup (node : NodeId) (reason : String)
  | node (node : NodeId) (failure : Failure)
  | noVerdict (node : NodeId)
  | guard (edge : String) (failure : Failure)
  | missingInstance (node : NodeId)
  deriving DecidableEq

def RunError.message : RunError → String
  | .setup n r => "failed to instantiate node '" ++ n ++ "': " ++ r
  | .node n f => "node '" ++ n ++ "' failed: " ++ f.message
  | .noVerdict n => "condition node '" ++ n ++ "' did not produce a boolean 'result'"
  | .guard e f => "condition on edge '" ++ e ++ "' could not be evaluated: " ++ f.message
  | .missingInstance n => "internal error: no instance for node " ++ n

/-- What a run is given: the plan, the nodes made ready, the evaluator of conditions, how many
executions may be in flight, and the initial state. -/
structure Job where
  plan : Plan
  instance? : NodeId → Option Instance
  instance_declared : ∀ id i, instance? id = some i → id ∈ plan.definition.ids
  evaluator : Evaluator
  parallel : Nat
  initial : Fields

namespace Job

def definition (j : Job) : Definition := j.plan.definition

def cap (j : Job) : Nat := j.definition.cap

/-- How many executions may be in flight: at least one. -/
def limit (j : Job) : Nat := max 1 j.parallel

end Job

/-- An execution that has started and not ended. -/
structure Execution where
  node : NodeId
  iteration : Nat
  inputs : Inputs
  activity : Activity

/-- Why a run starts no more executions. -/
inductive Stop where
  | capReached (node : NodeId) (count : Nat)
  | cancelled
  deriving DecidableEq

/-- A condition that was judged: the edge, the expression, what it was judged by, and the answer. -/
structure Judgement where
  edge : String
  expression : String
  state : Guard.State
  answer : Except Failure Bool

/-- One thing that happened in a run. -/
inductive Moment where
  | event (event : Event)
  | dispatched (node : NodeId) (iteration : Nat) (inputs : Inputs)
  | ended (node : NodeId) (outcome : Outcome)
  | judged (judgement : Judgement)

/-- What a run has come to. -/
structure Run where
  /-- How often each node has started. -/
  counts : Table Nat
  /-- The latest outputs of each node. -/
  outputs : Table Fields
  /-- The nodes that are to run. -/
  pending : List NodeId
  /-- The executions in flight, in the order in which they started. -/
  inFlight : List Execution
  stop : Option Stop
  error : Option RunError
  /-- What has happened, the latest first. -/
  trace : List Moment

namespace Run

/-- A run before its first step: the entry point is to run. -/
def start (j : Job) : Run := ⟨.empty, .empty, [j.definition.entry], [], none, none, []⟩

def count (r : Run) (id : NodeId) : Nat := (r.counts.get? id).getD 0

def running (r : Run) : List NodeId := r.inFlight.map Execution.node

def note (r : Run) (m : Moment) : Run := { r with trace := m :: r.trace }

def events (r : Run) : List Event :=
  r.trace.reverse.filterMap (fun m => match m with
    | .event e => some e
    | _ => none)

def judgements (r : Run) : List Judgement :=
  r.trace.reverse.filterMap (fun m => match m with
    | .judged g => some g
    | _ => none)

/-- A node is ready when it is not in flight and no other node that is pending or in flight precedes
it. -/
def isReady (j : Job) (r : Run) (id : NodeId) : Bool :=
  !r.running.contains id &&
    (r.pending ++ r.running).all (fun other => other == id || !j.plan.precedes other id)

/-- The latest outputs of the nodes that lead to a node. -/
def inputsOf (j : Job) (r : Run) (id : NodeId) : Inputs :=
  Table.ofList ((j.definition.incoming id).filterMap (fun e =>
    (r.outputs.get? e.source).map (fun fields => (e.source, fields))))

def contextOf (j : Job) (r : Run) (id : NodeId) : Context :=
  ⟨id, r.count id + 1, r.inputsOf j id, j.initial⟩

/-- What the run does next when there is room for an execution. -/
inductive Choice where
  /-- There is nothing to start. -/
  | idle
  /-- The next node has run as often as it may. -/
  | capped (node : NodeId)
  /-- The next node cannot be run. -/
  | missing (node : NodeId)
  /-- The next node starts. -/
  | start (node : NodeId) (made : Instance)

/-- Chooses the first ready node, if there is room for one more execution and the run goes on. -/
def choose (j : Job) (r : Run) : Choice :=
  if r.stop.isSome || r.error.isSome || j.limit ≤ r.inFlight.length then .idle
  else
    match r.pending.find? (r.isReady j) with
    | none => .idle
    | some id =>
      if j.cap ≤ r.count id then .capped id
      else
        match j.instance? id with
        | none => .missing id
        | some i => .start id i

/-- Counts a node that is about to start and takes it off the pending ones. -/
def enter (r : Run) (id : NodeId) : Run :=
  { r with
    pending := r.pending.erase id
    counts := r.counts.insert id (r.count id + 1) }

/-- The event that tells of a node running again; a first execution is not told of. -/
def repeats (id : NodeId) (iteration : Nat) : List Moment :=
  if 1 < iteration then [.event (.repeated id iteration)] else []

/-- What happens when a node starts. -/
def startMoments (c : Context) : List Moment :=
  repeats c.node c.iteration ++ [.dispatched c.node c.iteration c.inputs]

/-- Adds moments to the trace, the first of them first. -/
def noteAll (r : Run) (l : List Moment) : Run := { r with trace := l.reverse ++ r.trace }

/-- Starts a node. -/
def launch (j : Job) (r : Run) (id : NodeId) (made : Instance) : Run :=
  let c := r.contextOf j id
  { (r.enter id).noteAll (startMoments c) with
    inFlight := r.inFlight ++ [⟨id, c.iteration, c.inputs, made.execute c⟩] }

/-- Adds nodes to the pending ones, each unless it is pending already. -/
def enqueue (r : Run) (targets : List NodeId) : Run :=
  { r with pending := targets.foldl (fun l t => if l.contains t then l else l ++ [t]) r.pending }

/-- Keeps the outputs of a node. -/
def store (r : Run) (id : NodeId) (o : Output) : Run :=
  { r with outputs := r.outputs.insert id o.fields }

end Run

namespace Job

/-- Judges the edges one by one up to the first that cannot be judged: the judgements made, and the
targets of the edges to follow. -/
def followEdges (j : Job) (state : Guard.State) :
    List Edge → List Judgement × Except RunError (List NodeId)
  | [] => ([], .ok [])
  | e :: rest =>
    match e.condition with
    | none =>
      let (judgements, targets) := j.followEdges state rest
      (judgements, targets.map (e.target :: ·))
    | some expression =>
      match j.evaluator expression state with
      | .error f => ([⟨e.id, expression, state, .error f⟩], .error (.guard e.id f))
      | .ok taken =>
        let (judgements, targets) := j.followEdges state rest
        (⟨e.id, expression, state, .ok taken⟩ :: judgements,
          if taken then targets.map (e.target :: ·) else targets)

/-- The nodes that a completed execution leads to.  A condition must have a verdict. -/
def follow (j : Job) (id : NodeId) (output : Output) (iteration : Nat) :
    List Judgement × Except RunError (List NodeId) :=
  let kind := ((j.definition.node? id).map Node.kind).getD ""
  if kind = conditionKind ∧ output.verdict = none then ([], .error (.noVerdict id))
  else
    j.followEdges ⟨id, kind, output.verdict, output.fields, iteration⟩ (j.definition.outgoing id)

end Job

namespace Run

/-- Handles the end of an execution.  While the run goes on, its outputs are kept and the nodes
that it leads to become pending; once the run has stopped, its outputs are kept and nothing
follows.  A failure ends the run, except that an execution which ends itself because the run was
cancelled makes the run a cancelled one. -/
def complete (j : Job) (cancelled : Bool) (r : Run) (i : Fin r.inFlight.length)
    (outcome : Outcome) : Run :=
  let id := r.inFlight[i].node
  let r' := { r with inFlight := r.inFlight.eraseIdx i }.noteAll [.ended id outcome]
  match outcome with
  | .ok output =>
    if r.stop.isSome then r'.store id output
    else
      let (judgements, targets) := j.follow id output (r.count id)
      let r'' := r'.noteAll (judgements.map .judged)
      match targets with
      | .error e => { r'' with error := some e }
      | .ok l => (r''.enqueue l).store id output
  | .error .cancelled =>
    if cancelled then { r' with stop := some .cancelled }
    else { r' with error := some (.node id .cancelled) }
  | .error f => { r' with error := some (.node id f) }

/-- How many executions may still start. -/
def budget (j : Job) (r : Run) : Nat :=
  j.definition.ids.foldr (fun id sum => j.cap - r.count id + sum) 0

/-- A measure that every step of a run makes smaller: each start takes one execution from the
budget, which counts twice, and puts one in flight, which counts once. -/
def weight (j : Job) (r : Run) : Nat := 2 * r.budget j + r.inFlight.length

end Run
end Workflow
