import Workflow.CommandLine.Script
import Workflow.Event.RunId
import Workflow.Json.Printer
import Workflow.Run.Result
import Workflow.Stored.Report
/-!
# Summaries

How definitions, findings, events and results are shown to a reader, line by line.
-/
namespace Workflow.CommandLine

/-- The lines that introduce a definition. -/
def facts (d : Definition) : List String :=
  ["   Nodes: " ++ toString d.nodes.length, "   Edges: " ++ toString d.edges.length]

/-- The line about a finding behind a mark. -/
def findingLine (mark : String) (f : Finding) : String :=
  "   " ++ mark ++ f.code.name ++ " " ++ ",".intercalate f.nodes ++ ": " ++ f.message

/-- The lines about the findings of a report, errors first. -/
def findingLines (r : Report) : List String :=
  r.errors.map (findingLine "❌ ") ++ r.warnings.map (findingLine "⚠️  ")

def truthText (b : Bool) : String := if b then "true" else "false"

/-- The line about an event; `millis` is how long the whole run took. -/
def eventLine (millis : Nat) : Event → String
  | .started _ entry _ hasLoops cap =>
    "▶️  Workflow started at " ++ entry ++ " (loops: " ++ truthText hasLoops ++
      ", max iterations: " ++ toString cap ++ ")"
  | .repeated node iteration => "  🔁 " ++ node ++ " iteration " ++ toString iteration
  | .capReached node count cap =>
    "  ⛔ Loop stopped at " ++ node ++ " after " ++ toString count ++ "/" ++ toString cap ++
      " executions"
  | .completed _ capped _ =>
    if capped then "✨ Workflow completed in " ++ toString millis ++ "ms (loop terminated)"
    else "✨ Workflow completed successfully in " ++ toString millis ++ "ms"

/-- The lines about the outputs of a run, none if there are none. -/
def outputLines (outputs : Table Fields) : List String :=
  if outputs.isEmpty then []
  else
    ["", "📤 Outputs:"] ++
      outputs.toList.map (fun (id, fields) => "   " ++ id ++ ": " ++ (Fields.tree fields).compact)

def resultLines (run : RunId) (r : Result) : List String :=
  ["", "📊 Execution Summary:", "   Run ID: " ++ run.text, "   Status: " ++ r.status.label] ++
    r.counts.toList.map (fun (id, n) => "   " ++ id ++ ": executed " ++ toString n ++ "x") ++
    (r.error.map ("   ❌ " ++ ·)).toList ++
    (r.report.map findingLines).getD [] ++
    outputLines r.outputs

def kindLines (d : Description) : List String :=
  ("  • " ++ d.kind ++ " (" ++ d.category ++ ")") ::
    if d.about = "" then [] else ["    " ++ d.about]

/-- How a run that did not succeed is complained about. -/
def resultComplaint (r : Result) : Option Complaint :=
  if r.status.isSuccess then none
  else
    some (.plain ("workflow ended as " ++ r.status.label ++ ": " ++
      r.error.getD "no error reported"))

end Workflow.CommandLine
