import Workflow.Catalog
import Workflow.Stored.Reader
/-!
# Stored descriptions of kinds
-/
namespace Workflow

/-- The stored form of a description; there are no members for a missing icon and a missing
colour. -/
def Description.tree (d : Description) : Json :=
  .object ([("node_type", .string d.kind), ("display_name", .string d.title),
      ("description", .string d.about), ("category", .string d.category),
      ("input_schema", d.inputs), ("output_schema", d.outputs)] ++
    (d.icon.map (fun s => [("icon", Json.string s)])).getD [] ++
    (d.color.map (fun s => [("color", Json.string s)])).getD [])

namespace Stored

/-- Reads a description.  Unlike one that is made, it is not checked. -/
def description : Reader Description :=
  record "NodeDefinition"
    [required "node_type" text (fun v d => { d with kind := v }),
      required "display_name" text (fun v d => { d with title := v }),
      required "description" text (fun v d => { d with about := v }),
      required "category" text (fun v d => { d with category := v }),
      required "input_schema" tree (fun v d => { d with inputs := v.normal }),
      required "output_schema" tree (fun v d => { d with outputs := v.normal }),
      defaulted "icon" (optional text) (fun v d => { d with icon := v }),
      defaulted "color" (optional text) (fun v d => { d with color := v })]
    (Description.bare "")

end Stored
end Workflow
