import Workflow.Json.Token
/-!
# Documents

A document is what reading a JSON text gives: a tree that remembers where each value ends and where
reading stopped.  Faults stay in the tree at the place where they were met, so a reader that wants
certain fields reports whichever comes first in the text, a fault of the text or a value that is not
what it wants.  Reading is a fold over the tokens.
-/
namespace Workflow.Json

/-- The key of a member, with the place after it and the place at which the next token stands. -/
structure Key where
  text : Except Fault String
  stop : Place
  next : Place

/-- Where a value that is neither array nor object stands: the place after its first byte and the
place after it. -/
structure Span where
  peek : Place
  stop : Place

/-- The span of a value that was never text. -/
def Span.start : Span := ⟨.start, .start⟩

/-- A value of a document.  Arrays and objects whose end was not reached carry the fault. -/
inductive Doc where
  | null (span : Span)
  | bool (span : Span) (value : Bool)
  | number (span : Span) (value : Except Fault Number)
  | string (span : Span) (text : Except Fault String)
  | array (start stop : Place) (items : List Doc) (tail : Option Fault)
  | object (start stop : Place) (members : List (Key × Doc)) (tail : Option Fault)
  | absent (fault : Fault)
  deriving Inhabited

/-- A text as it was read: its value and the fault behind it. -/
structure Document where
  root : Doc
  trailing : Option Fault

namespace Document

/-- An array or an object whose end is not yet reached; the newest entry stands first.  A `field`
frame is a key whose value is still to come. -/
inductive Frame where
  | array (start : Place) (items : List Doc)
  | object (start : Place) (members : List (Key × Doc))
  | field (key : Key)

/-- What the reader expects next. -/
inductive Expect where
  | value
  | itemOrEnd
  | item
  | keyOrEnd
  | key
  | colon
  | next
  | nothing
  deriving DecidableEq

/-- The reader between two tokens: the open frames, innermost first, what comes next, and the
finished root.  Once it has stopped it takes no more tokens. -/
structure Reader where
  frames : List Frame
  expect : Expect
  root : Option Doc
  stopped : Option Document

def Reader.start : Reader := ⟨[], .value, none, none⟩

/-- Hands a finished value to the innermost frame. -/
def Reader.give (r : Reader) (d : Doc) : Reader :=
  match r.frames with
  | .array s items :: rest => { r with frames := .array s (d :: items) :: rest, expect := .next }
  | .field k :: .object s members :: rest =>
    { r with frames := .object s ((k, d) :: members) :: rest, expect := .next }
  | _ => { r with root := some d, expect := .nothing }

/-- Closes every open frame around the value that stands inside it. -/
def wrap (f : Fault) : Option Doc → List Frame → Doc
  | inner, [] => inner.getD (.absent f)
  | inner, .array s items :: rest =>
    let items := match inner with
      | some d => d :: items
      | none => items
    wrap f (some (.array s f.place items.reverse (some f))) rest
  | inner, .field k :: .object s members :: rest =>
    let d := inner.getD (.absent f)
    wrap f (some (.object s f.place ((k, d) :: members).reverse (some f))) rest
  | inner, .object s members :: rest =>
    wrap f (some ((inner.getD (.object s f.place members.reverse (some f))))) rest
  | inner, .field _ :: rest => wrap f inner rest

/-- Stops at a fault.  Where a value was expected the fault takes its place. -/
def Reader.stop (r : Reader) (f : Fault) : Reader :=
  match r.root with
  | some d => { r with stopped := some ⟨d, some f⟩ }
  | none =>
    let inner : Option Doc :=
      match r.expect with
      | .value | .item | .itemOrEnd => some (.absent f)
      | _ => none
    { r with stopped := some ⟨wrap f inner r.frames, some f⟩ }

/-- Takes a token where a value is expected. -/
def Reader.takeValue (r : Reader) (l : Lexeme) : Reader :=
  match l.token with
  | .openArray => { r with frames := .array l.start [] :: r.frames, expect := .itemOrEnd }
  | .openObject => { r with frames := .object l.start [] :: r.frames, expect := .keyOrEnd }
  | .null => r.give (.null ⟨l.peek, l.stop⟩)
  | .bool b => r.give (.bool ⟨l.peek, l.stop⟩ b)
  | .number n => r.give (.number ⟨l.peek, l.stop⟩ n)
  | .string s => r.give (.string ⟨l.peek, l.stop⟩ s)
  | .broken _ f => r.stop f
  | .closeArray | .closeObject | .comma | .colon | .stray => r.stop ⟨.expectedValue, l.peek⟩

/-- Closes the innermost frame at the token. -/
def Reader.close (r : Reader) (l : Lexeme) : Reader :=
  match r.frames with
  | .array s items :: rest => { r with frames := rest }.give (.array s l.stop items.reverse none)
  | .object s members :: rest =>
    { r with frames := rest }.give (.object s l.stop members.reverse none)
  | _ => r

/-- Takes a token where a key is expected. -/
def Reader.takeKey (r : Reader) (l : Lexeme) : Reader :=
  match l.token with
  | .string s => { r with frames := .field ⟨s, l.stop, l.stop⟩ :: r.frames, expect := .colon }
  | .broken true f => r.stop f
  | _ => r.stop ⟨.keyNotString, l.peek⟩

/-- Takes note of where the token behind a key stands. -/
def Reader.reach (r : Reader) (place : Place) : Reader :=
  match r.frames with
  | .field k :: rest => { r with frames := .field { k with next := place } :: rest }
  | _ => r

/-- Takes the token behind a key. -/
def Reader.takeColon (r : Reader) (l : Lexeme) : Reader :=
  match l.token with
  | .colon => { r with expect := .value }
  | _ => r.stop ⟨.expectedColon, l.peek⟩

def Reader.take (r : Reader) (l : Lexeme) : Reader :=
  if r.stopped.isSome then r
  else
    match r.expect, l.token with
    | .value, _ => r.takeValue l
    | .itemOrEnd, .closeArray => r.close l
    | .itemOrEnd, _ => r.takeValue l
    | .item, .closeArray => r.stop ⟨.trailingComma, l.peek⟩
    | .item, _ => r.takeValue l
    | .keyOrEnd, .closeObject => r.close l
    | .keyOrEnd, _ => r.takeKey l
    | .key, .closeObject => r.stop ⟨.trailingComma, l.peek⟩
    | .key, _ => r.takeKey l
    | .colon, _ => (r.reach l.start).takeColon l
    | .next, t =>
      match r.frames, t with
      | .array _ _ :: _, .comma => { r with expect := .item }
      | .array _ _ :: _, .closeArray => r.close l
      | .array _ _ :: _, _ => r.stop ⟨.expectedItemEnd, l.peek⟩
      | _, .comma => { r with expect := .key }
      | _, .closeObject => r.close l
      | _, _ => r.stop ⟨.expectedMemberEnd, l.peek⟩
    | .nothing, _ => r.stop ⟨.trailingText, l.peek⟩

/-- The fault of a text that ends here. -/
def Reader.endFault (r : Reader) : Fault.Cause :=
  match r.expect, r.frames with
  | .itemOrEnd, _ => .endInArray
  | .keyOrEnd, _ | .colon, _ => .endInObject
  | .next, .array _ _ :: _ => .endInArray
  | .next, _ => .endInObject
  | _, _ => .endInValue

/-- The document at the end of the text. -/
def Reader.finish (r : Reader) (place : Place) : Document :=
  match r.stopped with
  | some d => d
  | none =>
    match r.root with
    | some d => ⟨d, none⟩
    | none =>
      (((r.reach place).stop ⟨r.endFault, place⟩).stopped).getD ⟨.absent ⟨.endInValue, place⟩, none⟩

def ofText (text : String) : Document :=
  let (lexemes, place) := tokens .start text.toList
  (lexemes.foldl Reader.take .start).finish place

end Document

/-- The number of nested arrays and objects that a tree may have. -/
def maxDepth : Nat := 127

/-- The place behind the opening bracket. -/
def Place.bracket (p : Place) : Place := ⟨p.line, p.column + 1⟩

/-- The place after the first byte of a value. -/
def Doc.peek : Doc → Place
  | .null s | .bool s _ | .number s _ | .string s _ => s.peek
  | .array start _ _ _ | .object start _ _ _ => start.bracket
  | .absent f => f.place

mutual
/-- The tree of a value; the first fault in the order of the text, if there is one.  `depth` is the
number of levels that are still allowed. -/
def Doc.tree (depth : Nat) : Doc → Except Fault Json
  | .null _ => .ok .null
  | .bool _ b => .ok (.bool b)
  | .number _ n => n.map .number
  | .string _ s => s.map .string
  | .array start _ items tail =>
    match depth with
    | 0 => .error ⟨.tooDeep, start.bracket⟩
    | d + 1 =>
      match Doc.trees d items with
      | .error f => .error f
      | .ok l =>
        match tail with
        | some f => .error f
        | none => .ok (.array l)
  | .object start _ members tail =>
    match depth with
    | 0 => .error ⟨.tooDeep, start.bracket⟩
    | d + 1 =>
      match Doc.memberTrees d members with
      | .error f => .error f
      | .ok l =>
        match tail with
        | some f => .error f
        | none => .ok (.object l)
  | .absent f => .error f

def Doc.trees (depth : Nat) : List Doc → Except Fault (List Json)
  | [] => .ok []
  | d :: rest =>
    match Doc.tree depth d with
    | .error f => .error f
    | .ok j => (Doc.trees depth rest).map (j :: ·)

def Doc.memberTrees (depth : Nat) : List (Key × Doc) → Except Fault (List (String × Json))
  | [] => .ok []
  | (k, d) :: rest =>
    match k.text with
    | .error f => .error f
    | .ok key =>
      match Doc.tree depth d with
      | .error f => .error f
      | .ok j => (Doc.memberTrees depth rest).map ((key, j) :: ·)
end

mutual
/-- A tree as a document that was never text; all its places are the start. -/
def Doc.ofTree : Json → Doc
  | .null => .null .start
  | .bool b => .bool .start b
  | .number n => .number .start (.ok n)
  | .string s => .string .start (.ok s)
  | .array items => .array .start .start (Doc.ofTrees items) none
  | .object members => .object .start .start (Doc.ofMembers members) none

def Doc.ofTrees : List Json → List Doc
  | [] => []
  | j :: rest => Doc.ofTree j :: Doc.ofTrees rest

def Doc.ofMembers : List (String × Json) → List (Key × Doc)
  | [] => []
  | (k, j) :: rest => (⟨.ok k, .start, .start⟩, Doc.ofTree j) :: Doc.ofMembers rest
end

/-- Reads a text as one tree with nothing behind it. -/
def ofText (text : String) : Except Fault Json :=
  let d := Document.ofText text
  match d.root.tree maxDepth with
  | .error f => .error f
  | .ok j =>
    match d.trailing with
    | some f => .error f
    | none => .ok j

end Workflow.Json
