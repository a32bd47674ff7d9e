import Workflow.Event
import Workflow.Event.RunId
import Workflow.Event.Timestamp
import Workflow.Stored.Reader
/-!
# Stored events

An event is stored with the run that it belongs to and the time at which it happened.  The event
that a run is complete also tells how long the run took.
-/
namespace Workflow

/-- An event of a certain run at a certain time. -/
structure EventRecord where
  run : RunId
  event : Event
  time : Timestamp
  /-- How long the run took, when it is complete. -/
  millis : Nat
  deriving BEq

/-- What an event tells, apart from times. -/
def Event.facts : Event → List (String × Json)
  | .started workflow entry nodes hasLoops cap =>
    [("workflow_name", .string workflow), ("entry_point", .string entry),
      ("node_count", Json.nat nodes), ("has_loops", .bool hasLoops),
      ("max_iterations", Json.nat cap)]
  | .repeated node iteration => [("node_id", .string node), ("iteration", Json.nat iteration)]
  | .capReached node count cap =>
    [("node_id", .string node), ("count", Json.nat count), ("max_iterations", Json.nat cap)]
  | .completed success capped counts =>
    [("success", .bool success), ("loop_terminated", .bool capped),
      ("node_execution_counts", Json.ofTable (counts.map Json.nat))]

namespace EventRecord

/-- What an event tells, with its times. -/
def payload (r : EventRecord) : List (String × Json) :=
  r.event.facts ++
    (match r.event with
      | .completed .. => [("duration_ms", Json.nat r.millis)]
      | _ => []) ++
    [("timestamp", .string r.time.text)]

def tree (r : EventRecord) : Json :=
  .object [("run_id", .string r.run.text),
    ("event", .object (("type", .string r.event.name) :: r.payload))]

end EventRecord

namespace Stored

open Workflow.Json (Doc)

def runId : Reader RunId := fun depth d =>
  match text depth d with
  | .error e => .error e
  | .ok s =>
    match RunId.ofText? s with
    | some r => .ok r
    | none => .error (.mismatch "UUID parsing failed" none)

def timestamp : Reader Timestamp := fun depth d =>
  match text depth d with
  | .error e => .error e
  | .ok s =>
    match Timestamp.ofText? s with
    | some t => .ok t
    | none => .error (.mismatch "input contains invalid characters" none)

/-- What the events tell, while it is read. -/
structure EventParts where
  texts : Table String
  numbers : Table Nat
  truths : Table Bool
  counts : Table Nat
  time : Timestamp

def eventText (key : String) : Member EventParts :=
  required key text (fun v p => { p with texts := p.texts.insert key v })

def eventNumber (key : String) (r : Reader Nat) : Member EventParts :=
  required key r (fun v p => { p with numbers := p.numbers.insert key v })

def eventTruth (key : String) : Member EventParts :=
  required key truth (fun v p => { p with truths := p.truths.insert key v })

def eventTime : Member EventParts :=
  required "timestamp" timestamp (fun v p => { p with time := v })

/-- The members of the event with a name, and how they make the event. -/
def eventShape? (name : String) : Option (List (Member EventParts) × (EventParts → Event)) :=
  let str (p : EventParts) (k : String) : String := (p.texts.get? k).getD ""
  let num (p : EventParts) (k : String) : Nat := (p.numbers.get? k).getD 0
  let yes (p : EventParts) (k : String) : Bool := (p.truths.get? k).getD false
  if name = "workflow_start" then
    some ([eventText "workflow_name", eventText "entry_point", eventNumber "node_count" size,
        eventTruth "has_loops", eventNumber "max_iterations" whole32, eventTime],
      fun p => .started (str p "workflow_name") (str p "entry_point") (num p "node_count")
        (yes p "has_loops") (num p "max_iterations"))
  else if name = "loop_iteration" then
    some ([eventText "node_id", eventNumber "iteration" whole32, eventTime],
      fun p => .repeated (str p "node_id") (num p "iteration"))
  else if name = "loop_terminated" then
    some ([eventText "node_id", eventNumber "count" whole32, eventNumber "max_iterations" whole32,
        eventTime],
      fun p => .capReached (str p "node_id") (num p "count") (num p "max_iterations"))
  else if name = "workflow_complete" then
    some ([eventTruth "success", eventTruth "loop_terminated",
        required "node_execution_counts" (table whole32) (fun v p => { p with counts := v }),
        eventNumber "duration_ms" whole64, eventTime],
      fun p => .completed (yes p "success") (yes p "loop_terminated") p.counts)
  else none

/-- Splits an event into its name and the rest of it. -/
def splitTag (depth : Nat) (d : Doc) : Except ReadError (String × Doc) :=
  match d with
  | .object start stop l tail =>
    match l.find? (fun m => m.1.text.toOption == some "type") with
    | none => .error (.mismatch "missing field `type`" (some stop))
    | some (_, t) =>
      (text depth t).map (fun name =>
        (name, .object start stop (l.filter (fun m => m.1.text.toOption != some "type")) tail))
  | .array _ stop [] _ => .error (.mismatch "missing field `type`" (some stop))
  | .array start stop (t :: rest) tail =>
    (text depth t).map (fun name => (name, .array start stop rest tail))
  | d => .error (wrongType "internally tagged enum ExecutionEvent" d)

/-- Reads an event with its time and the duration that it tells. -/
def event : Reader (Event × Timestamp × Nat) := fun depth d =>
  match splitTag depth d with
  | .error e => .error e
  | .ok (name, body) =>
    match eventShape? name with
    | none => .error (.mismatch ("unknown variant `" ++ name ++ "`") none)
    | some (ms, make) =>
      (record name ms ⟨.empty, .empty, .empty, .empty, default⟩ depth body).map (fun p =>
        (make p, p.time, (p.numbers.get? "duration_ms").getD 0))

/-- Reads an event of a run. -/
def eventRecord : Reader EventRecord :=
  record "RunEvent"
    [required "run_id" runId (fun v r => { r with run := v }),
      required "event" event (fun v r => { r with event := v.1, time := v.2.1, millis := v.2.2 })]
    ⟨⟨[]⟩, .repeated "" 0, default, 0⟩

end Stored
end Workflow
