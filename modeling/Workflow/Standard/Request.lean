import Workflow.Catalog
import Workflow.Http.Status
import Workflow.Json.Document
import Workflow.Json.Printer
import Workflow.Text.Case
import Workflow.Url.Basic
import Workflow.Value.Tree
/-!
# Requests

The kind `http_request` sends a request and hands on the response.  A request that fails does not
fail the run: what went wrong is handed on instead, for a condition to look at.
-/
namespace Workflow.Standard.Request

open Workflow.Http (Method Reply Response)

/-- The configured address, or what is wrong with it. -/
def url (n : Node) : Except String Url :=
  match (n.get? "url").bind Value.string? with
  | none => .error "is required"
  | some s =>
    match Url.parse s with
    | .error e => .error ("is not a valid URL: " ++ e.message)
    | .ok u =>
      if u.scheme = "http" ∨ u.scheme = "https" then .ok u
      else .error ("scheme must be http or https, got " ++ u.scheme)

/-- The configured method, or what is wrong with it; one that is not configured is GET. -/
def method (n : Node) : Except String Method :=
  match n.get? "method" with
  | none => .ok .get
  | some v =>
    match v.string? with
    | none => .error "must be a string"
    | some s =>
      match Method.ofName? (Text.upper s) with
      | some m => .ok m
      | none => .error ("unsupported method: " ++ s)

/-- A remark about a field, if something is wrong with it. -/
def remark {α : Type} (field : String) : Except String α → List Problem
  | .ok _ => []
  | .error text => [⟨field, text⟩]

def problems (n : Node) : List Problem :=
  remark "url" (url n) ++ remark "method" (method n) ++
    (if (n.get? "headers").any (fun v => v.members?.isNone) then
      [⟨"headers", "must be an object"⟩] else [])

/-- Whether a text may name a header: a token of visible ASCII characters. -/
def isHeaderName (s : String) : Bool :=
  !s.isEmpty && s.toList.all (fun c => c.isAlphanum || "!#$%&'*+-.^_\x60|~".toList.contains c)

/-- Whether a text may be the value of a header: no control characters but tabs. -/
def isHeaderValue (s : String) : Bool :=
  s.toList.all (fun c => c == '\t' || (0x20 ≤ c.toNat && c.toNat != 0x7F))

/-- The configured headers whose values are texts. -/
def headers (n : Node) : List (String × String) :=
  match (n.get? "headers").bind Value.members? with
  | none => []
  | some t => t.toList.filterMap (fun (k, v) => v.string?.map (fun s => (k, s)))

/-- Whether every header can be sent. -/
def areHeaders (l : List (String × String)) : Bool :=
  l.all (fun (k, v) => isHeaderName k && isHeaderValue v)

/-- The body of a request, and whether it is written as JSON.  A text is sent as it is, null is no
body. -/
def body (n : Node) (c : Context) (m : Method) : Option (String × Bool) :=
  if !m.hasBody then none
  else
    match (n.get? "body").or (c.findInput "body") with
    | none | some .null => none
    | some (.string s) => some (s, false)
    | some v => some (v.tree.compact, true)

/-- Adds the type of a JSON body unless a type is configured. -/
def withType (isJson : Bool) (l : List (String × String)) : List (String × String) :=
  if isJson && !(l.any (fun (k, _) => Text.asciiLower k == "content-type")) then
    l ++ [("content-type", "application/json")]
  else l

/-- What is handed on when there is no complete response. -/
def failure (text : String) : Activity :=
  .done (.ok (.ofList [("success", .bool false), ("status", .number 0.0), ("error", .string text)]))

/-- The value of a body: its JSON tree, or the text itself. -/
def bodyValue (s : String) : Value :=
  match Json.ofText s with
  | .ok j => .ofTree j
  | .error _ => .string s

/-- What is handed on when a response came. -/
def received (r : Response) : Activity :=
  .done (.ok (.ofList ([("success", .bool (Http.isSuccess r.status)),
      ("status", .number (Decimal.ofWhole r.status)), ("body", .string r.body),
      ("headers", .ofTable (Table.ofList (r.headers.map (fun (k, v) => (k, Value.string v))))),
      ("data", bodyValue r.body)] ++
    (if Http.isSuccess r.status then []
      else [("error", Value.string ("HTTP status " ++ Http.statusText r.status))]))))

/-- Goes on with the reply. -/
def answered (address : String) : Reply → Activity
  | .answered r => received r
  | .unreachable =>
    failure ("HTTP request failed: error sending request for url (" ++ address ++ ")")
  | .cutShort => failure "Failed to read response: error decoding response body"

def execute (n : Node) (c : Context) : Activity :=
  match url n with
  | .error e => .done (.error (.misconfigured ("url " ++ e)))
  | .ok u =>
    match method n with
    | .error e => .done (.error (.misconfigured ("method " ++ e)))
    | .ok m =>
      let b := body n c m
      let l := headers n
      if !areHeaders l then failure "HTTP request failed: builder error"
      else if !u.hasPlainHost then
        failure ("HTTP request failed: builder error for url (" ++ u.text ++ ")")
      else
        .send ⟨m, u.text, withType (b.any Prod.snd) l, b.map Prod.fst⟩ (answered u.text)
          (failure "request cancelled")

def kind : Kind where
  name := "http_request"
  description :=
    { kind := "http_request"
      title := "HTTP Request"
      about := "Make HTTP requests"
      category := "http_request"
      inputs := .object [("body", .string "any")]
      outputs := .object [("body", .string "string"), ("data", .string "any"),
        ("headers", .string "object"), ("status", .string "number"), ("success", .string "boolean")]
      icon := some "globe"
      color := none }
  create n := .ok ⟨"http_request", problems n, execute n⟩

end Workflow.Standard.Request
