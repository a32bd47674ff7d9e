import Workflow.Definition.Draft
import Workflow.Stored.Reader
/-!
# Stored definitions

A definition is stored as the draft that it can be built from again.
-/
namespace Workflow

def Node.tree (n : Node) : Json :=
  .object [("id", .string n.id), ("type", .string n.kind), ("config", Fields.tree n.config)]

/-- The stored form of an edge; there is no member for a missing condition. -/
def Edge.tree (e : Edge) : Json :=
  .object ([("id", .string e.id), ("source", .string e.source), ("target", .string e.target)] ++
    (e.condition.map (fun c => [("condition", Json.string c)])).getD [])

def Definition.tree (d : Definition) : Json :=
  .object [("name", .string d.name), ("nodes", .array (d.nodes.map Node.tree)),
    ("edges", .array (d.edges.map Edge.tree)), ("entry_point", .string d.entry),
    ("max_iterations", Json.nat d.cap)]

namespace Stored

def nodeDraft : Reader NodeDraft :=
  record "NodeSpec"
    [required "id" text (fun v n => { n with id := v }),
      required "type" text (fun v n => { n with kind := v }),
      defaulted "config" fields (fun v n => { n with config := v })]
    ⟨"", "", .empty⟩

def edgeDraft : Reader EdgeDraft :=
  record "EdgeSpec"
    [defaulted "id" text (fun v e => { e with id := v }),
      required "source" text (fun v e => { e with source := v }),
      required "target" text (fun v e => { e with target := v }),
      defaulted "condition" (optional text) (fun v e => { e with condition := v })]
    ⟨"", "", "", none⟩

def draft : Reader Draft :=
  record "WorkflowSpec"
    [defaulted "name" text (fun v d => { d with name := v }),
      required "nodes" (list nodeDraft) (fun v d => { d with nodes := v }),
      defaulted "edges" (list edgeDraft) (fun v d => { d with edges := v }),
      defaulted "entry_point" (optional text) (fun v d => { d with entry := v }),
      defaulted "max_iterations" (optional whole32) (fun v d => { d with cap := v })]
    (Draft.start "")

def definition : Reader Definition := fun depth d =>
  match draft depth d with
  | .error e => .error e
  | .ok w => w.build?.mapError (fun flaw => .mismatch flaw.message none)

end Stored
end Workflow
