/-!
# Names of runs

A run is named by 128 bits, written as 32 hexadecimal digits in five groups.
-/
namespace Workflow

/-- The name of a run: its 32 digits in lower case. -/
structure RunId where
  digits : List Char
  deriving DecidableEq

namespace RunId

def isDigit (c : Char) : Bool :=
  c.isDigit || ('a' ≤ c && c ≤ 'f') || ('A' ≤ c && c ≤ 'F')

/-- The name with the given digits, if there are 32 of them. -/
def ofDigits? (cs : List Char) : Option RunId :=
  if cs.length = 32 ∧ cs.all isDigit then some ⟨cs.map Char.toLower⟩ else none

/-- The digits of five groups separated by hyphens. -/
def ungroup? (cs : List Char) : Option (List Char) :=
  if cs.length = 36 ∧ ([8, 13, 18, 23].all (fun i => cs[i]? == some '-')) then
    some (cs.filter (fun c => c != '-'))
  else none

/-- The name that a text spells: plain digits, or groups, which may stand in braces or behind
`urn:uuid:`. -/
def ofText? (text : String) : Option RunId :=
  let cs := text.toList
  match cs with
  | '\x7b' :: rest =>
    match rest.reverse with
    | '\x7d' :: inner => (ungroup? inner.reverse).bind ofDigits?
    | _ => none
  | 'u' :: 'r' :: 'n' :: ':' :: 'u' :: 'u' :: 'i' :: 'd' :: ':' :: rest =>
    (ungroup? rest).bind ofDigits?
  | cs => if cs.length = 32 then ofDigits? cs else (ungroup? cs).bind ofDigits?

def text (r : RunId) : String :=
  let part (start length : Nat) : String := String.ofList ((r.digits.drop start).take length)
  "-".intercalate [part 0 8, part 8 4, part 12 4, part 16 4, part 20 12]

end RunId
end Workflow
