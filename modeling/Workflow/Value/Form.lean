import Workflow.Json.Printer
import Workflow.Value.Tree
/-!
# The forms of values

A tree does not say which form of value it is meant for.  So whoever restores a value tries one form
after the other, and takes the first that has a use for a tree of this kind.  Whoever stores a value
hands what it holds to a writer, who makes a tree or a text of it.
-/
namespace Workflow.Value

/-- What a form of value makes of each kind of tree.  It has no use for kinds other than its own. -/
structure Form where
  null : Option Value := none
  bool : Bool → Option Value := fun _ => none
  int : Int → Option Value := fun _ => none
  real : Float → Option Value := fun _ => none
  text : String → Option Value := fun _ => none
  items : List Value → Option Value := fun _ => none
  members : List (String × Value) → Option Value := fun _ => none

/-- The forms in the order in which they are tried. -/
def forms : List Form :=
  [{ null := some .null },
    { bool := fun b => some (.bool b) },
    { int := fun i => some (.number (Json.Number.int i).toFloat)
      real := fun x => some (.number x) },
    { text := fun s => some (.string s) },
    { items := fun l => some (.array l) },
    { members := fun l => some (.object (Table.ofList l).entries) }]

mutual
/-- The value of the first form that has a use for the tree. -/
def recognize? : Json → Option Value
  | .null => forms.findSome? fun f => f.null
  | .bool b => forms.findSome? fun f => f.bool b
  | .number (.int i) => forms.findSome? fun f => f.int i
  | .number (.real x) => forms.findSome? fun f => f.real x
  | .string s => forms.findSome? fun f => f.text s
  | .array items => (recognizeItems? items).bind fun l => forms.findSome? fun f => f.items l
  | .object members =>
    (recognizeMembers? members).bind fun l => forms.findSome? fun f => f.members l

def recognizeItems? : List Json → Option (List Value)
  | [] => some []
  | j :: rest => (recognize? j).bind fun v => (recognizeItems? rest).map (v :: ·)

def recognizeMembers? : List (String × Json) → Option (List (String × Value))
  | [] => some []
  | (k, j) :: rest => (recognize? j).bind fun v => (recognizeMembers? rest).map ((k, v) :: ·)
end

/-- What is made of each thing that a value may hold. -/
structure Writer (β : Type) where
  null : β
  bool : Bool → β
  number : Float → β
  text : String → β
  items : List β → β
  members : List (String × β) → β

section
variable {β : Type}

mutual
/-- Hands what the value holds to a writer. -/
def write (w : Writer β) : Value → β
  | .null => w.null
  | .bool b => w.bool b
  | .number x => w.number x
  | .string s => w.text s
  | .array items => w.items (writeItems w items)
  | .object members => w.members (writeMembers w members)

def writeItems (w : Writer β) : List Value → List β
  | [] => []
  | v :: rest => write w v :: writeItems w rest

def writeMembers (w : Writer β) : List (String × Value) → List (String × β)
  | [] => []
  | (k, v) :: rest => (k, write w v) :: writeMembers w rest
end

end

/-- Makes a tree; the members of an object are put into a table, key by key. -/
def Writer.tree : Writer Json where
  null := .null
  bool := .bool
  number := Json.real
  text := .string
  items := .array
  members l := .ofTable (Table.ofList l)

/-- Makes a text in one line. -/
def Writer.compact : Writer String where
  null := "null"
  bool b := if b then "true" else "false"
  number x := if x.isFinite then Decimal.Layout.json.format x else "null"
  text := Json.quote
  items l := "[" ++ ",".intercalate l ++ "]"
  members l := "\x7b" ++ ",".intercalate (l.map fun e => Json.quote e.1 ++ ":" ++ e.2) ++ "\x7d"

mutual
/-- The value with null in the place of every number that is not finite. -/
def finitePart : Value → Value
  | .number x => if x.isFinite then .number x else .null
  | .array items => .array (finiteItems items)
  | .object members => .object (finiteMembers members)
  | v => v

def finiteItems : List Value → List Value
  | [] => []
  | v :: rest => finitePart v :: finiteItems rest

def finiteMembers : List (String × Value) → List (String × Value)
  | [] => []
  | (k, v) :: rest => (k, finitePart v) :: finiteMembers rest
end

end Workflow.Value
