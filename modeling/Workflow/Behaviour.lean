import Workflow.Definition.Node
import Workflow.Http.Message
/-!
# What nodes do

A node that runs is given a context and answers with an activity: a result, a pause and then more,
or a request and then more, depending on the reply.  An activity says what can happen and leaves
clocks, cancellation and networks to whoever carries it out.
-/
namespace Workflow

/-- Why an execution failed. -/
inductive Failure where
  | missingInput (key : String)
  | wrongKind (field expected actual : String)
  | misconfigured (reason : String)
  | failed (reason : String)
  | timedOut (millis : Nat)
  | cancelled
  deriving DecidableEq

def Failure.message : Failure → String
  | .missingInput k => "Missing required input: " ++ k
  | .wrongKind f e a => "Invalid input type for '" ++ f ++ "': expected " ++ e ++ ", got " ++ a
  | .misconfigured r => "Configuration error: " ++ r
  | .failed r => "Execution failed: " ++ r
  | .timedOut ms => "Timeout after " ++ toString ms ++ "ms"
  | .cancelled => "Cancelled"

/-- What an execution hands on, with remarks about itself. -/
structure Output where
  fields : Fields
  millis : Nat
  remarks : Fields

namespace Output

def ofFields (fields : Fields) : Output := ⟨fields, 0, .empty⟩

def ofList (l : List (String × Value)) : Output := ofFields (Table.ofList l)

/-- The boolean output `result`, which decides about conditional edges. -/
def verdict (o : Output) : Option Bool := (o.fields.get? "result").bind Value.bool?

end Output

abbrev Outcome := Except Failure Output

/-- The latest outputs of the nodes that lead to a node, by their names. -/
abbrev Inputs := Table Fields

/-- What an execution is given: the node, how often it has run with this time, the inputs, and the
initial state of the whole run. -/
structure Context where
  node : NodeId
  iteration : Nat
  inputs : Inputs
  initial : Fields

namespace Context

/-- The context of a first execution without inputs. -/
def first (node : NodeId) : Context := ⟨node, 1, .empty, .empty⟩

/-- The outputs of a node that must have run. -/
def requireInput (c : Context) (producer : NodeId) : Except Failure Fields :=
  match c.inputs.get? producer with
  | some fields => .ok fields
  | none => .error (.missingInput producer)

/-- The first value under a key, looking through the producers by name. -/
def findInput (c : Context) (key : String) : Option Value :=
  c.inputs.values.findSome? (fun fields => fields.get? key)

/-- The first value under a key, which must be there. -/
def requireValue (c : Context) (key : String) : Except Failure Value :=
  match c.findInput key with
  | some v => .ok v
  | none => .error (.missingInput key)

/-- The value under a key, from the preferred producer if that has one. -/
def inputFrom (c : Context) (key : String) (preferred : Option NodeId) : Option Value :=
  ((preferred.bind c.inputs.get?).bind (fun fields => fields.get? key)).or (c.findInput key)

/-- All inputs as one object, by producer. -/
def mergedInputs (c : Context) : Value := .ofTable (c.inputs.map Value.ofTable)

end Context

/-- What an execution does. -/
inductive Activity where
  | done (outcome : Outcome)
  /-- Sleeps, whatever happens, and goes on. -/
  | sleep (millis : Nat) (next : Activity)
  /-- Sleeps and goes on, or is interrupted when the run is cancelled. -/
  | wait (millis : Nat) (next interrupted : Activity)
  /-- Sends a request and goes on with the reply, or is interrupted when the run is cancelled. -/
  | send (request : Http.Request) (next : Http.Reply → Activity) (interrupted : Activity)

/-- A remark about one configured field. -/
structure Problem where
  field : String
  text : String
  deriving DecidableEq

/-- A node made ready to run. -/
structure Instance where
  kind : String
  /-- What is wrong with the configuration. -/
  problems : List Problem
  execute : Context → Activity

end Workflow
