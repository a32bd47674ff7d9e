import Workflow.CommandLine.Arguments
import Workflow.CommandLine.Example
import Workflow.CommandLine.Script
import Workflow.CommandLine.Summary
import Workflow.Engine
import Workflow.Standard.Kinds
import Workflow.Stored.Definition
import Workflow.Stored.Settings
/-!
# The program

The script of every command.  Settings are read before anything else, except by the command that
writes the example, which needs none.
-/
namespace Workflow.CommandLine

/-- What a command needs besides its arguments: a name for its run, and the network. -/
structure Surroundings where
  run : RunId
  network : Http.Request → Http.Reply

/-- Reads the settings and goes on with an engine of the standard kinds. -/
def withEngine (config : Option String) (next : Engine → Script) : Script :=
  match config with
  | none => next (.ofCatalog Standard.catalog .standard)
  | some path =>
    let fail (e : SetupError) (cause : String) : Script :=
      .fail ⟨"failed to load config from " ++ path, [e.message, cause]⟩
    .read path (fun
      | .error fault => fail (.file fault.message) fault.message
      | .ok text =>
        match Stored.ofText Stored.settings text with
        | .error e => fail (.document e.message) e.message
        | .ok settings => next (.ofCatalog Standard.catalog settings))

/-- Reads a workflow and goes on with it. -/
def withDefinition (path : String) (next : Definition → Script) : Script :=
  .read path (fun
    | .error fault => .fail ⟨"failed to read " ++ path, [fault.message]⟩
    | .ok text =>
      match Stored.ofText Stored.definition text with
      | .error e => .fail ⟨path ++ " is not a valid workflow", [e.message]⟩
      | .ok d => next d)

/-- The definition with another cap, if one is asked for. -/
def recap (cap : Option Nat) (d : Definition) : Except Complaint Definition :=
  match cap with
  | none => .ok d
  | some n => (d.withCap n).mapError (fun flaw => .plain flaw.message)

/-- The initial state that is written in a text. -/
def initialState (input : Option String) : Except Complaint Fields :=
  match input with
  | none => .ok .empty
  | some text =>
    match Json.ofText text with
    | .error fault => .error (.plain fault.message)
    | .ok (.object members) => .ok (Fields.ofMembers members)
    | .ok _ => .error (.plain "Input must be a JSON object")

/-- Runs a workflow and tells about it. -/
def runScript (s : Surroundings) (e : Engine) (file : String) (input : Option String)
    (cap : Option Nat) : Script :=
  .print ("🚀 Loading workflow from: " ++ file) <|
    withDefinition file fun loaded =>
      match recap cap loaded with
      | .error c => .fail c
      | .ok d =>
        match initialState input with
        | .error c => .fail c
        | .ok initial =>
          let (result, clock) := e.execute d initial (e.clockWorld s.network) (.start none none)
          .printAll (("📋 Workflow: " ++ d.name) :: facts d ++ ["   Entry point: " ++ d.entry, ""])
            (.pause clock.now
              (.printAll (result.events.map (eventLine clock.now) ++ resultLines s.run result)
                (.finish (resultComplaint result))))

/-- Tells what the validation of a workflow finds. -/
def validateScript (e : Engine) (file : String) (json : Bool) : Script :=
  withDefinition file fun d =>
    let report := e.validate d
    let lines :=
      if json then [report.tree.pretty]
      else
        ("🔍 Validating workflow: " ++ file) :: ("   Name: " ++ d.name) :: facts d ++
          findingLines report ++ (if report.valid then ["✅ Workflow is valid"] else [])
    .printAll lines <|
      if report.valid then .done
      else
        .fail (.plain ("workflow has " ++ toString report.errors.length ++ " validation error(s)"))

/-- Lists the kinds of node. -/
def nodesScript (e : Engine) : Script :=
  .printAll ("📦 Available Node Types:" :: "" :: e.catalog.toList.flatMap kindLines) .done

def runHint (file : String) : String :=
  "  loom run --file " ++ file ++ " --input '\x7b\"count\": 0\x7d'"

/-- Writes the example workflow. -/
def initScript (output : String) : Script :=
  match exampleDraft.build? with
  | .error flaw => .fail (.plain flaw.message)
  | .ok d =>
    .write output d.tree.pretty (fun
      | .error fault => .fail (.plain fault.message)
      | .ok () =>
        .printAll
          ["✨ Created example workflow: " ++ output, "", "Run it with:", runHint output,
            runHint output ++ " --max-iterations 3"] .done)

/-- The lines that say how the program is used. -/
def usage : List String :=
  ["Loom workflow engine CLI", "",
    "Usage: loom [--config <FILE>] [--verbose] <COMMAND>", "",
    "  run --file <FILE> [--input <JSON>] [--max-iterations <N>]   Execute a workflow file",
    "  validate <FILE> [--json]                                    Validate a workflow file",
    "  nodes                                                       List available node types",
    "  init [--output <FILE>]                                      Create an example workflow"]

def Invocation.script (i : Invocation) (s : Surroundings) : Script :=
  match i.command with
  | .run file input cap => withEngine i.config (fun e => runScript s e file input cap)
  | .validate file json => withEngine i.config (fun e => validateScript e file json)
  | .nodes => withEngine i.config nodesScript
  | .init output => initScript output
  | .help => .printAll usage .done

end Workflow.CommandLine
