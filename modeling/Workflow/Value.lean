import Workflow.Table
/-!
# Values

Values are what nodes are configured with and what they hand to each other.  Every number is a
double.  The members of an object stand in increasing key order with one value for each key, so
alike values have one form.
-/
namespace Workflow

/-- A value that flows through a workflow. -/
inductive Value where
  | null
  | bool (value : Bool)
  | number (value : Float)
  | string (text : String)
  | array (items : List Value)
  | object (members : List (String × Value))
  deriving Inhabited

namespace Value

def ofTable (t : Table Value) : Value := .object t.entries

def string? : Value → Option String
  | .string s => some s
  | _ => none

def number? : Value → Option Float
  | .number x => some x
  | _ => none

def bool? : Value → Option Bool
  | .bool b => some b
  | _ => none

def items? : Value → Option (List Value)
  | .array items => some items
  | _ => none

def members? : Value → Option (Table Value)
  | .object members => some (Table.ofList members)
  | _ => none

def isNull : Value → Bool
  | .null => true
  | _ => false

/-- Null, false, zero and empty texts, arrays and objects do not hold; everything else does. -/
def holds : Value → Bool
  | .null => false
  | .bool b => b
  | .number x => x != 0.0
  | .string s => !s.isEmpty
  | .array items => !items.isEmpty
  | .object members => !members.isEmpty

/-- The kind of the value as messages name it. -/
def kind : Value → String
  | .null => "null"
  | .bool _ => "bool"
  | .number _ => "number"
  | .string _ => "string"
  | .array _ => "array"
  | .object _ => "object"

mutual
/-- Whether two values are alike.  Numbers compare as numbers, so both zeros are alike and a value
that is not a number differs even from itself. -/
def same : Value → Value → Bool
  | .null, .null => true
  | .bool a, .bool b => a == b
  | .number a, .number b => a == b
  | .string a, .string b => a == b
  | .array a, .array b => sameItems a b
  | .object a, .object b => sameMembers a b
  | _, _ => false

def sameItems : List Value → List Value → Bool
  | [], [] => true
  | a :: as, b :: bs => same a b && sameItems as bs
  | _, _ => false

def sameMembers : List (String × Value) → List (String × Value) → Bool
  | [], [] => true
  | (k, a) :: as, (l, b) :: bs => k == l && same a b && sameMembers as bs
  | _, _ => false
end

instance : BEq Value := ⟨same⟩

end Value

/-- Named values: the configuration of a node, the outputs of an execution, an initial state. -/
abbrev Fields := Table Value

end Workflow
