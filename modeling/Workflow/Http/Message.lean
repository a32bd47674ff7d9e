/-!
# Requests and responses

What a node sends to a service and what can come back.
-/
namespace Workflow.Http

/-- The methods that a node may use. -/
inductive Method where
  | get
  | post
  | put
  | patch
  | delete
  | head
  deriving DecidableEq

def Method.name : Method → String
  | .get => "GET"
  | .post => "POST"
  | .put => "PUT"
  | .patch => "PATCH"
  | .delete => "DELETE"
  | .head => "HEAD"

def Method.all : List Method := [.get, .post, .put, .patch, .delete, .head]

def Method.ofName? (name : String) : Option Method :=
  Method.all.find? (fun m => m.name == name)

def Method.hasBody (m : Method) : Bool := m != .get && m != .head

/-- A request as it is handed to the network. -/
structure Request where
  method : Method
  /-- The address in its normal form, with its fragment. -/
  url : String
  headers : List (String × String)
  body : Option String
  deriving DecidableEq

/-- A complete response; the names of its headers are in lower case. -/
structure Response where
  status : Nat
  headers : List (String × String)
  body : String
  deriving DecidableEq

/-- What the network gives for a request. -/
inductive Reply where
  | answered (response : Response)
  /-- No response came. -/
  | unreachable
  /-- A response came, but its body ended early. -/
  | cutShort
  deriving DecidableEq

end Workflow.Http
