import Workflow.Behaviour
import Workflow.Json.Basic
import Workflow.Text.Blank
/-!
# The catalog of node kinds

A catalog knows for each kind of node how to make one and how to describe it.  A kind that is
entered again replaces the older one, so the last entry wins.
-/
namespace Workflow

/-- Why a node cannot be set up. -/
inductive SetupError where
  | node (failure : Failure)
  | flaw (flaw : Flaw)
  | file (reason : String)
  | document (reason : String)
  deriving DecidableEq

def SetupError.message : SetupError → String
  | .node f => "Node error: " ++ f.message
  | .flaw f => "Workflow error: " ++ f.message
  | .file r => "IO error: " ++ r
  | .document r => "Serialization error: " ++ r

/-- How a kind of node is described. -/
structure Description where
  kind : String
  title : String
  about : String
  category : String
  inputs : Json
  outputs : Json
  icon : Option String
  color : Option String
  deriving BEq

namespace Description

/-- The description that says no more than the name of the kind. -/
def bare (kind : String) : Description :=
  ⟨kind, kind, "", "general", .object [], .object [], none, none⟩

def isObject (j : Json) : Bool := j.members?.isSome

/-- A description whose kind and title are not blank and whose schemas are objects.  The first flaw
in this order is reported. -/
def make? (kind title about category : String) (inputs outputs : Json) :
    Except Flaw Description :=
  if Text.isBlank kind then .error (.invalidEntry "node_type must not be empty")
  else if Text.isBlank title then
    .error (.invalidEntry ("display_name of '" ++ kind ++ "' must not be empty"))
  else if !isObject inputs then
    .error (.invalidEntry ("input_schema of '" ++ kind ++ "' must be an object"))
  else if !isObject outputs then
    .error (.invalidEntry ("output_schema of '" ++ kind ++ "' must be an object"))
  else .ok ⟨kind, title, about, category, inputs, outputs, none, none⟩

end Description

/-- A kind of node: its name, its description and how to make a node of it. -/
structure Kind where
  name : String
  description : Description
  create : Node → Except Failure Instance

/-- The kind that a description and a way to make nodes stand for.  It has the name that the
description gives. -/
def Kind.described (description : Description) (create : Node → Except Failure Instance) : Kind :=
  ⟨description.kind, description, create⟩

/-- The kinds of node that are known, by name. -/
structure Catalog where
  kinds : Table Kind

namespace Catalog

def empty : Catalog := ⟨.empty⟩

/-- Enters a kind; its description takes the name of the kind.  A blank name is refused. -/
def register (c : Catalog) (k : Kind) : Except Flaw Catalog :=
  if Text.isBlank k.name then .error (.invalidEntry "node_type must not be empty")
  else .ok ⟨c.kinds.insert k.name { k with description := { k.description with kind := k.name } }⟩

/-- Enters a kind by its description and a way to make nodes. -/
def registerDescribed (c : Catalog) (description : Description)
    (create : Node → Except Failure Instance) : Except Flaw Catalog :=
  c.register (.described description create)

/-- Enters kinds one after the other. -/
def registerAll (c : Catalog) : List Kind → Except Flaw Catalog
  | [] => .ok c
  | k :: rest =>
    match c.register k with
    | .error flaw => .error flaw
    | .ok c' => c'.registerAll rest

def instantiate (c : Catalog) (n : Node) : Except SetupError Instance :=
  match c.kinds.get? n.kind with
  | none => .error (.flaw (.unknownKind n.kind))
  | some k => (k.create n).mapError .node

/-- Makes a node ready to run from its parts. -/
def create (c : Catalog) (id : NodeId) (kind : String) (config : Fields) :
    Except SetupError Instance :=
  match Node.make? id kind config with
  | .error flaw => .error (.flaw flaw)
  | .ok n => c.instantiate n

def get? (c : Catalog) (kind : String) : Option Description :=
  (c.kinds.get? kind).map Kind.description

/-- The descriptions by name of the kind. -/
def toList (c : Catalog) : List Description := c.kinds.values.map Kind.description

/-- The descriptions of one category, by name of the kind. -/
def inCategory (c : Catalog) (category : String) : List Description :=
  c.toList.filter (fun d => d.category == category)

def contains (c : Catalog) (kind : String) : Bool := c.kinds.contains kind

def size (c : Catalog) : Nat := c.kinds.size

end Catalog

/-- The catalog that a whole process shares, once there is one. -/
structure Shared where
  installed : Option Catalog

/-- Installs a catalog for the whole process; only the first one is taken. -/
def Shared.install (s : Shared) (c : Catalog) : Except Flaw Shared :=
  match s.installed with
  | none => .ok ⟨some c⟩
  | some _ => .error .catalogInstalled

end Workflow
