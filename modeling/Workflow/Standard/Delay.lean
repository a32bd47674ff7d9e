import Workflow.Catalog
/-!
# Delays

A delay sleeps for some time and hands its data on.  It ends early when the run is cancelled.
-/
namespace Workflow.Standard.Delay

/-- How long a delay sleeps when nothing is configured, in milliseconds. -/
def standardMillis : Float := 1000.0

/-- The configured time, if it is a number that is not negative. -/
def millis? (n : Node) : Option Float :=
  match n.get? "delay_ms" with
  | none => some standardMillis
  | some v => v.number?.filter (fun x => x ≥ 0.0)

def problems (n : Node) : List Problem :=
  match millis? n with
  | some _ => []
  | none => [⟨"delay_ms", "must be a non-negative number"⟩]

/-- Sleeps for the whole milliseconds of the configured time. -/
def execute (n : Node) (c : Context) : Activity :=
  match millis? n with
  | none => .done (.error (.misconfigured "delay_ms must be a non-negative number"))
  | some ms =>
    let finish (cancelled : Bool) : Activity :=
      .done (.ok (.ofList
        [("data", (c.findInput "data").getD .null), ("cancelled", .bool cancelled)]))
    .wait ms.toUInt64.toNat (finish false) (finish true)

def kind : Kind where
  name := "delay"
  description :=
    { kind := "delay"
      title := "Delay"
      about := "Delay execution for specified milliseconds"
      category := "utility"
      inputs := .object [("data", .string "any")]
      outputs := .object [("cancelled", .string "boolean"), ("data", .string "any")]
      icon := some "clock"
      color := none }
  create n := .ok ⟨"delay", problems n, execute n⟩

end Workflow.Standard.Delay
