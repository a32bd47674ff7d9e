import Workflow.Text.CaseTable
import Workflow.Text.MarkTable
/-!
# Upper and lower case

Full case mapping: a letter may become several, and a capital sigma at the end of a word becomes the
final form.
-/
namespace Workflow.Text

/-- The character that a run of case mappings gives, if one of the runs has the character. -/
def mapCase? (runs : List CaseRun) (c : Char) : Option Char :=
  let n := c.toNat
  match runs.find? (fun r => r.first ≤ n && n ≤ r.last && (n - r.first) % r.step == 0) with
  | some r => some (Char.ofNat ((n : Int) + r.shift).toNat)
  | none => none

/-- The upper-case form of a character. -/
def upperChar (c : Char) : List Char :=
  match mapCase? upperRuns c with
  | some d => [d]
  | none =>
    match upperSeveral.lookup c.toNat with
    | some codes => codes.map Char.ofNat
    | none => [c]

def upper (s : String) : String :=
  String.ofList (s.toList.flatMap upperChar)

def isCased (c : Char) : Bool := inRanges casedRanges c.toNat

/-- Whether a character is passed over when the neighbours of a letter are looked for. -/
def isCaseIgnorable (c : Char) : Bool :=
  inRanges caseIgnorableRanges c.toNat || inRanges markRanges c.toNat

/-- Whether the first character that is not passed over has a case. -/
def meetsCased (cs : List Char) : Bool :=
  match cs.dropWhile isCaseIgnorable with
  | c :: _ => isCased c
  | [] => false

/-- The lower-case form of a character between the characters before it, nearest first, and those
after it.  A capital sigma is final when a letter stands before it and none after it. -/
def lowerChar (before : List Char) (c : Char) (after : List Char) : List Char :=
  if c = 'Σ' then [if meetsCased before && !meetsCased after then 'ς' else 'σ']
  else if c = 'İ' then ['i', '\u0307']
  else [(mapCase? lowerRuns c).getD c]

/-- The lower-case form of the rest of a text. -/
def lowerFrom (before : List Char) : List Char → List Char
  | [] => []
  | c :: rest => lowerChar before c rest ++ lowerFrom (c :: before) rest

/-- The text in lower case. -/
def lower (s : String) : String :=
  String.ofList (lowerFrom [] s.toList)

/-- A text in which the letters A to Z are replaced by a to z; nothing else changes. -/
def asciiLower (s : String) : String := s.map Char.toLower

end Workflow.Text
