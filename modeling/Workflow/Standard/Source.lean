import Workflow.Catalog
/-!
# Sources

A source hands on data that it is configured with, or a value of the initial state.
-/
namespace Workflow.Standard.Source

/-- What is said of a source with neither data nor a key. -/
def nothingConfigured : String := "either 'data' or 'state_key' is required"

def problems (n : Node) : List Problem :=
  match n.get? "state_key" with
  | some v =>
    if v.string?.any (fun s => !s.isEmpty) then []
    else [⟨"state_key", "must be a non-empty string"⟩]
  | none => if (n.get? "data").isSome then [] else [⟨"data", nothingConfigured⟩]

def execute (n : Node) (c : Context) : Activity :=
  match n.get? "data" with
  | some v => .done (.ok (.ofList [("data", v)]))
  | none =>
    match (n.get? "state_key").bind Value.string? with
    | none => .done (.error (.misconfigured nothingConfigured))
    | some key =>
      match c.initial.get? key with
      | none => .done (.error (.missingInput key))
      | some v => .done (.ok (.ofList [("data", v)]))

def kind : Kind where
  name := "data_source"
  description :=
    { kind := "data_source"
      title := "Data Source"
      about := "Emits inline data or a value from the run's initial state"
      category := "data_source"
      inputs := .object []
      outputs := .object [("data", .string "any")]
      icon := some "database"
      color := none }
  create n := .ok ⟨"data_source", problems n, execute n⟩

end Workflow.Standard.Source
