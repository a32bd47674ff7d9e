import Workflow.Catalog
import Workflow.Json.Document
import Workflow.Json.Printer
import Workflow.Text.Case
import Workflow.Value.Diagnostic
import Workflow.Value.Tree
/-!
# Processors

A processor applies one operation to the `data` that it gets.
-/
namespace Workflow.Standard

/-- What a processor can do with its data. -/
inductive Operation where
  | passthrough
  | uppercase
  | lowercase
  | length
  | increment
  | jsonParse
  | jsonStringify
  deriving DecidableEq

namespace Operation

def ofName? : String → Option Operation
  | "passthrough" => some .passthrough
  | "uppercase" => some .uppercase
  | "lowercase" => some .lowercase
  | "length" => some .length
  | "increment" => some .increment
  | "json_parse" => some .jsonParse
  | "json_stringify" => some .jsonStringify
  | _ => none

/-- The failure of data of the wrong kind. -/
def mismatch (expected : String) (actual : Value) : Failure :=
  .wrongKind "data" expected actual.kind

def onText (f : String → Except Failure Value) (v : Value) : Except Failure Value :=
  match v with
  | .string s => f s
  | v => .error (mismatch "string" v)

/-- Applies an operation; `step` is what `increment` adds. -/
def apply (o : Operation) (step : Float) (v : Value) : Except Failure Value :=
  match o with
  | .passthrough => .ok v
  | .uppercase => onText (fun s => .ok (.string (Text.upper s))) v
  | .lowercase => onText (fun s => .ok (.string (Text.lower s))) v
  | .length =>
    match v with
    | .string s => .ok (.number (Decimal.ofWhole s.length))
    | .array l => .ok (.number (Decimal.ofWhole l.length))
    | .object l => .ok (.number (Decimal.ofWhole l.length))
    | v => .error (mismatch "string, array or object" v)
  | .increment =>
    match v with
    | .null => .ok (.number step)
    | .number x => .ok (.number (x + step))
    | v => .error (mismatch "number" v)
  | .jsonParse =>
    onText (fun s =>
      match Json.ofText s with
      | .ok j => .ok (.ofTree j)
      | .error f => .error (.failed ("JSON parse error: " ++ f.message))) v
  | .jsonStringify => .ok (.string v.tree.compact)

end Operation

namespace Processor

/-- The configured operation; one that is not configured is `passthrough`. -/
def operation (n : Node) : Except Failure Operation :=
  match n.get? "operation" with
  | none => .ok .passthrough
  | some v =>
    match v.string?.bind Operation.ofName? with
    | some o => .ok o
    | none => .error (.misconfigured ("unknown operation: " ++ v.shown))

def problems (n : Node) : List Problem :=
  (match operation n with
    | .ok _ => []
    | .error _ => [⟨"operation", "must be one of passthrough, uppercase, lowercase, length, " ++
        "increment, json_parse, json_stringify"⟩]) ++
  (if (n.get? "by").any (fun v => v.number?.isNone) then [⟨"by", "must be a number"⟩] else [])

/-- Applies the operation to the data, which comes from the configured producer if that has any. -/
def execute (n : Node) (c : Context) : Activity :=
  match operation n with
  | .error f => .done (.error f)
  | .ok o =>
    let data := (c.inputFrom "data" ((n.get? "source").bind Value.string?)).getD .null
    let step := ((n.get? "by").bind Value.number?).getD 1.0
    .done ((o.apply step data).map (fun v => .ofList [("data", v)]))

def kind : Kind where
  name := "data_processor"
  description :=
    { kind := "data_processor"
      title := "Data Processor"
      about := "Transforms upstream data with a named operation"
      category := "data_processor"
      inputs := .object [("data", .string "any")]
      outputs := .object [("data", .string "any")]
      icon := some "cog"
      color := none }
  create n := .ok ⟨"data_processor", problems n, execute n⟩

end Processor
end Workflow.Standard
