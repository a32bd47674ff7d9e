import Workflow.Catalog
/-!
# Conditions

A condition compares one field of its inputs with a configured value and hands on the verdict,
together with the `data` that it saw.
-/
namespace Workflow.Standard

/-- How a condition compares. -/
inductive Operator where
  | equals
  | notEquals
  | greaterThan
  | lessThan
  | exists
  | truthy
  deriving DecidableEq

namespace Operator

def ofName? : String → Option Operator
  | "equals" => some .equals
  | "not_equals" => some .notEquals
  | "greater_than" => some .greaterThan
  | "less_than" => some .lessThan
  | "exists" => some .exists
  | "truthy" => some .truthy
  | _ => none

/-- Whether the operator compares with a second value. -/
def isBinary (o : Operator) : Bool := o != .exists && o != .truthy

/-- Both values as numbers, if both are numbers. -/
def numbers? (actual expected : Option Value) : Option (Float × Float) :=
  match actual.bind Value.number?, expected.bind Value.number? with
  | some a, some b => some (a, b)
  | _, _ => none

/-- Compares; either side may be missing. -/
def evaluate (o : Operator) (actual expected : Option Value) : Bool :=
  match o with
  | .exists => actual.any (fun v => !v.isNull)
  | .truthy => actual.any Value.holds
  | .equals => actual == expected
  | .notEquals => actual != expected
  | .greaterThan => (numbers? actual expected).any (fun (a, b) => a > b)
  | .lessThan => (numbers? actual expected).any (fun (a, b) => a < b)

end Operator

namespace Condition

/-- The field that a condition looks at. -/
def field (n : Node) : String := ((n.get? "field").bind Value.string?).getD "data"

/-- The configured operator; one that is not configured is `truthy`. -/
def operator? (n : Node) : Option Operator :=
  match n.get? "operator" with
  | none => some .truthy
  | some v => v.string?.bind Operator.ofName?

def problems (n : Node) : List Problem :=
  match operator? n with
  | none =>
    [⟨"operator", "must be one of equals, not_equals, greater_than, less_than, exists, truthy"⟩]
  | some o =>
    (match n.get? "field" with
      | some v =>
        if v.string?.any (fun s => !s.isEmpty) then []
        else [⟨"field", "must be a non-empty string"⟩]
      | none => []) ++
    (match n.get? "value" with
      | none => if o.isBinary then [⟨"value", "is required for this operator"⟩] else []
      | some v =>
        if (o = .greaterThan ∨ o = .lessThan) ∧ v.number?.isNone then
          [⟨"value", "must be a number"⟩]
        else [])

def execute (n : Node) (c : Context) : Activity :=
  match operator? n with
  | none => .done (.error (.misconfigured "unknown operator"))
  | some o =>
    .done (.ok (.ofList [("result", .bool (o.evaluate (c.findInput (field n)) (n.get? "value"))),
      ("data", (c.findInput "data").getD .null)]))

def kind : Kind where
  name := conditionKind
  description :=
    { kind := conditionKind
      title := "Condition"
      about := "Tests an upstream field and emits a boolean verdict"
      category := "condition"
      inputs := .object [("data", .string "any")]
      outputs := .object [("data", .string "any"), ("result", .string "boolean")]
      icon := some "git-branch"
      color := some "#f59e0b" }
  create n := .ok ⟨conditionKind, problems n, execute n⟩

end Condition
end Workflow.Standard
