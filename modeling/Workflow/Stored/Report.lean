import Workflow.Report
import Workflow.Stored.Reader
/-!
# Stored reports
-/
namespace Workflow

def Finding.tree (f : Finding) : Json :=
  .object [("code", .string f.code.name), ("message", .string f.message),
    ("node_ids", Json.strings f.nodes), ("context", Json.ofTable f.context)]

def Report.tree (r : Report) : Json :=
  .object [("valid", .bool r.valid), ("errors", .array (r.errors.map Finding.tree)),
    ("warnings", .array (r.warnings.map Finding.tree))]

namespace Stored

open Workflow.Json (Doc)

/-- Reads a code: its name, or an object whose only key is the name and whose value is null. -/
def code : Reader Finding.Code := fun depth d =>
  let named (name : String) : Except ReadError Finding.Code :=
    match Finding.Code.ofName? name with
    | some c => .ok c
    | none => .error (.mismatch ("unknown variant `" ++ name ++ "`") none)
  match d with
  | .object _ _ [(k, .null _)] none =>
    match text depth (.string ⟨k.stop, k.stop⟩ k.text) with
    | .error e => .error e
    | .ok name => named name
  | d =>
    match text depth d with
    | .error e => .error e
    | .ok name => named name

def finding : Reader Finding :=
  record "ValidationIssue"
    [required "code" code (fun v f => { f with code := v }),
      required "message" text (fun v f => { f with message := v }),
      required "node_ids" (list text) (fun v f => { f with nodes := v }),
      defaulted "context" (table tree) (fun v f => { f with context := v.map Json.normal })]
    (Finding.plain .circularDependency "" [])

def report : Reader Report :=
  record "ValidationResult"
    [required "valid" truth (fun v r => { r with valid := v }),
      required "errors" (list finding) (fun v r => { r with errors := v }),
      required "warnings" (list finding) (fun v r => { r with warnings := v })]
    ⟨true, [], []⟩

end Stored
end Workflow
