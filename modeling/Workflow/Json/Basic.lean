import Workflow.Table
/-!
# JSON trees

A tree as a JSON text holds it.  Whole numbers that fit into 64 bits are kept as they are and every
other number is a double, so counters survive and measurements keep one representation.
-/
namespace Workflow

/-- A number of a JSON text. -/
inductive Json.Number where
  | int (value : Int)
  | real (value : Float)
  deriving Inhabited, BEq

/-- A JSON tree.  The members of an object stand in the order in which they were written. -/
inductive Json where
  | null
  | bool (value : Bool)
  | number (value : Json.Number)
  | string (text : String)
  | array (items : List Json)
  | object (members : List (String × Json))
  deriving Inhabited

namespace Json

def nat (n : Nat) : Json := .number (.int n)

/-- A double as a tree; numbers that JSON cannot write become null. -/
def real (x : Float) : Json :=
  if x.isFinite then .number (.real x) else .null

def strings (l : List String) : Json := .array (l.map .string)

/-- An optional tree; a missing one is null. -/
def ofOption : Option Json → Json
  | none => .null
  | some j => j

/-- The object of a table, by increasing key. -/
def ofTable (t : Table Json) : Json := .object t.entries

mutual
/-- Sorts the members of every object by key; of several members with one key the last is kept. -/
def normal : Json → Json
  | .array items => .array (normalItems items)
  | .object members => .object (Table.ofList (normalMembers members)).entries
  | j => j

def normalItems : List Json → List Json
  | [] => []
  | j :: rest => normal j :: normalItems rest

def normalMembers : List (String × Json) → List (String × Json)
  | [] => []
  | (k, j) :: rest => (k, normal j) :: normalMembers rest
end

mutual
/-- Whether two trees are alike, member by member in the order written. -/
def same : Json → Json → Bool
  | .null, .null => true
  | .bool a, .bool b => a == b
  | .number a, .number b => a == b
  | .string a, .string b => a == b
  | .array a, .array b => sameItems a b
  | .object a, .object b => sameMembers a b
  | _, _ => false

def sameItems : List Json → List Json → Bool
  | [], [] => true
  | a :: as, b :: bs => same a b && sameItems as bs
  | _, _ => false

def sameMembers : List (String × Json) → List (String × Json) → Bool
  | [], [] => true
  | (k, a) :: as, (l, b) :: bs => k == l && same a b && sameMembers as bs
  | _, _ => false
end

instance : BEq Json := ⟨same⟩

mutual
/-- How many levels of arrays and objects stand inside each other. -/
def height : Json → Nat
  | .array items => heights items + 1
  | .object members => memberHeights members + 1
  | _ => 0

def heights : List Json → Nat
  | [] => 0
  | j :: rest => max (height j) (heights rest)

def memberHeights : List (String × Json) → Nat
  | [] => 0
  | (_, j) :: rest => max (height j) (memberHeights rest)
end

/-- The members of an object, and none for any other tree. -/
def members? : Json → Option (List (String × Json))
  | .object members => some members
  | _ => none

def items? : Json → Option (List Json)
  | .array items => some items
  | _ => none

def string? : Json → Option String
  | .string s => some s
  | _ => none

def bool? : Json → Option Bool
  | .bool b => some b
  | _ => none

def nat? : Json → Option Nat
  | .number (.int (.ofNat n)) => some n
  | _ => none

/-- The value of the last member with the given key. -/
def get? (j : Json) (key : String) : Option Json :=
  j.members?.bind (fun members => members.reverse.lookup key)

end Json
end Workflow
