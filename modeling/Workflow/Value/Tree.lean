import Workflow.Value
import Workflow.Json.Basic
import Workflow.Decimal
/-!
# Values as JSON trees

Reading a tree rounds every number to a double and keeps the last of several members with one key;
writing a value gives a tree without duplicate keys.  Numbers that JSON cannot write become null.
-/
namespace Workflow

/-- The double that a number of a text stands for. -/
def Json.Number.toFloat : Json.Number → Float
  | .int (.ofNat n) => Decimal.ofWhole n
  | .int (.negSucc n) => -(Decimal.ofWhole (n + 1))
  | .real x => x

namespace Value

mutual
def ofTree : Json → Value
  | .null => .null
  | .bool b => .bool b
  | .number n => .number n.toFloat
  | .string s => .string s
  | .array items => .array (ofTrees items)
  | .object members => .object (Table.ofList (ofMembers members)).entries

def ofTrees : List Json → List Value
  | [] => []
  | j :: rest => ofTree j :: ofTrees rest

def ofMembers : List (String × Json) → List (String × Value)
  | [] => []
  | (k, j) :: rest => (k, ofTree j) :: ofMembers rest
end

mutual
def tree : Value → Json
  | .null => .null
  | .bool b => .bool b
  | .number x => Json.real x
  | .string s => .string s
  | .array items => .array (trees items)
  | .object members => .object (memberTrees members)

def trees : List Value → List Json
  | [] => []
  | v :: rest => tree v :: trees rest

def memberTrees : List (String × Value) → List (String × Json)
  | [] => []
  | (k, v) :: rest => (k, tree v) :: memberTrees rest
end

end Value

/-- The tree of named values. -/
def Fields.tree (f : Fields) : Json := Json.ofTable (f.map Value.tree)

/-- The named values of the members of an object. -/
def Fields.ofMembers (members : List (String × Json)) : Fields :=
  Table.ofList (Value.ofMembers members)

end Workflow
