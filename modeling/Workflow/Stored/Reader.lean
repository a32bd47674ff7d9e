import Workflow.Json.Document
import Workflow.Json.Printer
import Workflow.Text.Quoted
import Workflow.Value.Tree
/-!
# Reading stored data

Readers turn a document into data.  They go through the document in the order of its text and
report whatever comes first: a fault of the text, a value of the wrong type, or a member that is
missing or given twice.  Members that nobody asks for are passed over.  A record may also be
written as an array of its members in their order.
-/
namespace Workflow.Stored

open Workflow.Json (Doc Fault Place Key)

/-- Why stored data could not be read. -/
inductive ReadError where
  | fault (f : Fault)
  /-- The text is sound, but what it says is not what was asked for. -/
  | mismatch (text : String) (place : Option Place)

def ReadError.message : ReadError → String
  | .fault f => f.message
  | .mismatch text none => text
  | .mismatch text (some p) => p.locate text

/-- Reads a value of a document; the number is how many levels of nesting are still allowed. -/
abbrev Reader (α : Type) := Nat → Doc → Except ReadError α

/-- A number as messages show it. -/
def shownNumber : Json.Number → String
  | .int i => "integer `" ++ toString i ++ "`"
  | .real x => "floating point `" ++ Json.Number.text (.real x) ++ "`"

/-- The error about a value of the wrong type, unless the value has a fault of its own. -/
def wrongType (expected : String) (d : Doc) : ReadError :=
  let mismatch (found : String) (p : Place) : ReadError :=
    .mismatch ("invalid type: " ++ found ++ ", expected " ++ expected) (some p)
  match d with
  | .null s => mismatch "null" s.stop
  | .bool s b => mismatch ("boolean `" ++ (if b then "true" else "false") ++ "`") s.stop
  | .number _ (.error f) => .fault f
  | .number s (.ok n) => mismatch (shownNumber n) s.stop
  | .string _ (.error f) => .fault f
  | .string s (.ok t) => mismatch ("string " ++ Text.quoted t) s.stop
  | .array p _ _ _ => mismatch "sequence" p
  | .object p _ _ _ => mismatch "map" p
  | .absent f => .fault f

/-- The fault of nesting too deep at an opening bracket. -/
def tooDeep (start : Place) : ReadError := .fault ⟨.tooDeep, start.bracket⟩

def text : Reader String := fun _ d =>
  match d with
  | .string _ (.ok s) => .ok s
  | d => .error (wrongType "a string" d)

def truth : Reader Bool := fun _ d =>
  match d with
  | .bool _ b => .ok b
  | d => .error (wrongType "a boolean" d)

/-- Reads a whole number up to a limit; `name` is what messages call such a number. -/
def wholeUpTo (limit : Nat) (name : String) : Reader Nat := fun _ d =>
  match d with
  | .number s (.ok (.int i)) =>
    if 0 ≤ i ∧ i ≤ limit then .ok i.toNat
    else
      .error (.mismatch ("invalid value: integer `" ++ toString i ++ "`, expected " ++ name)
        (some s.stop))
  | d => .error (wrongType name d)

def whole32 : Reader Nat := wholeUpTo (Nat.pow 2 32 - 1) "u32"

def whole64 : Reader Nat := wholeUpTo (Nat.pow 2 64 - 1) "u64"

def size : Reader Nat := wholeUpTo (Nat.pow 2 64 - 1) "usize"

/-- Reads null as nothing. -/
def optional {α : Type} (r : Reader α) : Reader (Option α) := fun depth d =>
  match d with
  | .null _ => .ok none
  | d => (r depth d).map some

/-- Reads the items one after the other. -/
def items {α : Type} (r : Reader α) (depth : Nat) : List Doc → Except ReadError (List α)
  | [] => .ok []
  | d :: rest =>
    match r depth d with
    | .error e => .error e
    | .ok a => (items r depth rest).map (a :: ·)

/-- Gives a result unless the array or object has a fault at its end. -/
def ended {α : Type} (tail : Option Fault) (a : α) : Except ReadError α :=
  match tail with
  | some f => .error (.fault f)
  | none => .ok a

def list {α : Type} (r : Reader α) : Reader (List α) := fun depth d =>
  match d with
  | .array start _ l tail =>
    match depth with
    | 0 => .error (tooDeep start)
    | depth + 1 =>
      match items r depth l with
      | .error e => .error e
      | .ok as => ended tail as
  | d => .error (wrongType "a sequence" d)

/-- Reads the members one after the other, with their keys. -/
def members {α : Type} (r : Reader α) (depth : Nat) :
    List (Key × Doc) → Except ReadError (List (String × α))
  | [] => .ok []
  | (k, d) :: rest =>
    match k.text with
    | .error f => .error (.fault f)
    | .ok key =>
      match r depth d with
      | .error e => .error e
      | .ok a => (members r depth rest).map ((key, a) :: ·)

/-- Reads an object with any keys; of several members with one key the last is kept. -/
def table {α : Type} (r : Reader α) : Reader (Table α) := fun depth d =>
  match d with
  | .object start _ l tail =>
    match depth with
    | 0 => .error (tooDeep start)
    | depth + 1 =>
      match members r depth l with
      | .error e => .error e
      | .ok as => ended tail (Table.ofList as)
  | d => .error (wrongType "a map" d)

def tree : Reader Json := fun depth d => (d.tree depth).mapError .fault

mutual
def value (depth : Nat) : Doc → Except ReadError Value
  | .null _ => .ok .null
  | .bool _ b => .ok (.bool b)
  | .number _ (.ok n) => .ok (.number n.toFloat)
  | .number _ (.error f) => .error (.fault f)
  | .string _ (.ok s) => .ok (.string s)
  | .string _ (.error f) => .error (.fault f)
  | .array start _ l tail =>
    match depth with
    | 0 => .error (tooDeep start)
    | depth + 1 =>
      match values depth l with
      | .error e => .error e
      | .ok vs => ended tail (.array vs)
  | .object start _ l tail =>
    match depth with
    | 0 => .error (tooDeep start)
    | depth + 1 =>
      match memberValues depth l with
      | .error e => .error e
      | .ok vs => ended tail (.object (Table.ofList vs).entries)
  | .absent f => .error (.fault f)

def values (depth : Nat) : List Doc → Except ReadError (List Value)
  | [] => .ok []
  | d :: rest =>
    match value depth d with
    | .error e => .error e
    | .ok v => (values depth rest).map (v :: ·)

def memberValues (depth : Nat) : List (Key × Doc) → Except ReadError (List (String × Value))
  | [] => .ok []
  | (k, d) :: rest =>
    match k.text with
    | .error f => .error (.fault f)
    | .ok key =>
      match value depth d with
      | .error e => .error e
      | .ok v => (memberValues depth rest).map ((key, v) :: ·)
end

def fields : Reader Fields := table value

mutual
/-- The first fault that even a reader who passes a value over meets: numbers that are too large,
halves of surrogate pairs and deep nesting are not looked at. -/
def passOver : Doc → Option Fault
  | .array _ _ l tail => (passOverItems l).or tail
  | .object _ _ l tail => (passOverMembers l).or tail
  | .absent f => some f
  | _ => none

def passOverItems : List Doc → Option Fault
  | [] => none
  | d :: rest => (passOver d).or (passOverItems rest)

def passOverMembers : List (Key × Doc) → Option Fault
  | [] => none
  | (_, d) :: rest => (passOver d).or (passOverMembers rest)
end

/-- When a member of a record may be missing. -/
inductive Absence where
  | never
  /-- Only when the record is written as an object. -/
  | inObjects
  | always
  deriving DecidableEq

/-- A member of a record: its key, how it is read into the record, and when it may be missing. -/
structure Member (α : Type) where
  key : String
  read : Nat → Doc → Except ReadError (α → α)
  absence : Absence

/-- A member that must be there. -/
def required {α β : Type} (key : String) (r : Reader β) (set : β → α → α) : Member α :=
  ⟨key, fun depth d => (r depth d).map set, .never⟩

/-- A member that may be missing. -/
def defaulted {α β : Type} (key : String) (r : Reader β) (set : β → α → α) : Member α :=
  ⟨key, fun depth d => (r depth d).map set, .always⟩

/-- A member that may be null, or missing in an object. -/
def nullable {α β : Type} (key : String) (r : Reader β) (set : Option β → α → α) : Member α :=
  ⟨key, fun depth d => (optional r depth d).map set, .inObjects⟩

/-- Reads the members of a record in the order of the text.  `seen` holds the keys read so far. -/
def recordMembers {α : Type} (ms : List (Member α)) (depth : Nat) (seen : List String) (a : α) :
    List (Key × Doc) → Except ReadError (List String × α)
  | [] => .ok (seen, a)
  | (k, d) :: rest =>
    match k.text with
    | .error f => .error (.fault f)
    | .ok key =>
      match ms.find? (fun m => m.key == key) with
      | none =>
        match passOver d with
        | some f => .error (.fault f)
        | none => recordMembers ms depth seen a rest
      | some m =>
        if seen.contains key then
          .error (.mismatch ("duplicate field `" ++ key ++ "`") (some k.next))
        else
          match m.read depth d with
          | .error e => .error e
          | .ok set => recordMembers ms depth (key :: seen) (set a) rest

/-- Reads the members of a record from an array, one after the other.  `position` counts the members
before. -/
def recordItems {α : Type} (name : String) (total : Nat) (stop : Place) (depth position : Nat) :
    List (Member α) → List Doc → Option Fault → α → Except ReadError α
  | [], [], tail, a => ended tail a
  | [], d :: _, _, _ => .error (.mismatch "trailing characters" (some d.peek))
  | m :: ms, [], tail, a =>
    match tail with
    | some f => .error (.fault f)
    | none =>
      if m.absence = .always then recordItems name total stop depth (position + 1) ms [] tail a
      else
        .error (.mismatch ("invalid length " ++ toString position ++ ", expected struct " ++ name ++
          " with " ++ toString total ++ (if total = 1 then " element" else " elements"))
          (some stop))
  | m :: ms, d :: rest, tail, a =>
    match m.read depth d with
    | .error e => .error e
    | .ok set => recordItems name total stop depth (position + 1) ms rest tail (set a)

/-- Reads a record whose members are read into `start` one after the other; `name` is what messages
call it. -/
def record {α : Type} (name : String) (ms : List (Member α)) (start : α) : Reader α :=
  fun depth d =>
  match d with
  | .object place stop l tail =>
    match depth with
    | 0 => .error (tooDeep place)
    | depth + 1 =>
      match recordMembers ms depth [] start l with
      | .error e => .error e
      | .ok (seen, a) =>
        match tail with
        | some f => .error (.fault f)
        | none =>
          match ms.find? (fun m => m.absence == .never && !seen.contains m.key) with
          | some m => .error (.mismatch ("missing field `" ++ m.key ++ "`") (some stop))
          | none => .ok a
  | .array place stop l tail =>
    match depth with
    | 0 => .error (tooDeep place)
    | depth + 1 => recordItems name ms.length stop depth 0 ms l tail start
  | d => .error (wrongType ("struct " ++ name) d)

/-- Reads a text that holds one value and nothing behind it. -/
def ofText {α : Type} (r : Reader α) (text : String) : Except ReadError α :=
  let doc := Json.Document.ofText text
  match r Json.maxDepth doc.root with
  | .error e => .error e
  | .ok a =>
    match doc.trailing with
    | some f => .error (.fault f)
    | none => .ok a

/-- Reads a tree, which may be nested as deep as it likes; of several members with one key the last
counts. -/
def ofTree {α : Type} (r : Reader α) (j : Json) : Except ReadError α :=
  let tree := j.normal
  r tree.height (Doc.ofTree tree)

end Workflow.Stored
