import Workflow.Value
import Workflow.Decimal
import Workflow.Text.Quoted
/-!
# Values in diagnostics

The text by which a message shows a configured value: its kind and, in brackets, what it holds.
-/
namespace Workflow.Value

def numberText (x : Float) : String :=
  if x.isNaN then "NaN"
  else if x.isInf then (if x < 0.0 then "-inf" else "inf")
  else Decimal.Layout.diagnostic.format x

mutual
/-- The value as a message shows it. -/
def shown : Value → String
  | .null => "Null"
  | .bool b => "Bool(" ++ (if b then "true" else "false") ++ ")"
  | .number x => "Number(" ++ numberText x ++ ")"
  | .string s => "String(" ++ Text.quoted s ++ ")"
  | .array items => "Array([" ++ ", ".intercalate (shownItems items) ++ "])"
  | .object members => "Object(\x7b" ++ ", ".intercalate (shownMembers members) ++ "\x7d)"

def shownItems : List Value → List String
  | [] => []
  | v :: rest => shown v :: shownItems rest

def shownMembers : List (String × Value) → List String
  | [] => []
  | (k, v) :: rest => (Text.quoted k ++ ": " ++ shown v) :: shownMembers rest
end

end Workflow.Value
