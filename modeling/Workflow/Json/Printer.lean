import Workflow.Json.Basic
import Workflow.Decimal
/-!
# JSON text

Trees are written in one line without blanks, or over several lines with two blanks for each level.
Members keep their order.
-/
namespace Workflow.Json

def hexDigit (n : Nat) : Char := Nat.digitChar n

/-- A character inside a quoted text: quotes, backslashes and control characters are escaped, the
common ones by a letter and the others by four hexadecimal digits. -/
def escapeChar (c : Char) : String :=
  match c with
  | '"' => "\\\""
  | '\\' => "\\\\"
  | '\n' => "\\n"
  | '\r' => "\\r"
  | '\t' => "\\t"
  | '\x08' => "\\b"
  | '\x0c' => "\\f"
  | c =>
    if c.toNat < 0x20 then
      "\\u00" ++ String.ofList [hexDigit (c.toNat / 16), hexDigit (c.toNat % 16)]
    else String.singleton c

def quote (s : String) : String :=
  s.toList.foldl (fun out c => out ++ escapeChar c) "\"" ++ "\""

/-- The text of a number: whole numbers have no point, every double has one. -/
def Number.text : Number → String
  | .int i => toString i
  | .real x => if x.isFinite then Decimal.Layout.json.format x else "null"

mutual
/-- The tree in one line, without blanks. -/
def compact : Json → String
  | .null => "null"
  | .bool true => "true"
  | .bool false => "false"
  | .number n => n.text
  | .string s => quote s
  | .array items => "[" ++ compactItems items ++ "]"
  | .object members => "\x7b" ++ compactMembers members ++ "\x7d"

def compactItems : List Json → String
  | [] => ""
  | [j] => compact j
  | j :: rest => compact j ++ "," ++ compactItems rest

def compactMembers : List (String × Json) → String
  | [] => ""
  | [(k, j)] => quote k ++ ":" ++ compact j
  | (k, j) :: rest => quote k ++ ":" ++ compact j ++ "," ++ compactMembers rest
end

/-- A new line at a level of nesting. -/
def lineBreak (level : Nat) : String :=
  "\n" ++ String.ofList (List.replicate (2 * level) ' ')

mutual
/-- The tree over several lines; an empty array or object stays on its line. -/
def prettyAt (level : Nat) : Json → String
  | .array [] => "[]"
  | .array (j :: rest) =>
    "[" ++ lineBreak (level + 1) ++ prettyAt (level + 1) j ++ prettyItems (level + 1) rest ++
      lineBreak level ++ "]"
  | .object [] => "\x7b\x7d"
  | .object ((k, j) :: rest) =>
    "\x7b" ++ lineBreak (level + 1) ++ quote k ++ ": " ++ prettyAt (level + 1) j ++
      prettyMembers (level + 1) rest ++ lineBreak level ++ "\x7d"
  | j => compact j

/-- The items after the first, each on a line of its own. -/
def prettyItems (level : Nat) : List Json → String
  | [] => ""
  | j :: rest => "," ++ lineBreak level ++ prettyAt level j ++ prettyItems level rest

/-- The members after the first, each on a line of its own. -/
def prettyMembers (level : Nat) : List (String × Json) → String
  | [] => ""
  | (k, j) :: rest =>
    "," ++ lineBreak level ++ quote k ++ ": " ++ prettyAt level j ++ prettyMembers level rest
end

/-- The tree over several lines, starting at the left margin. -/
def pretty (j : Json) : String := prettyAt 0 j

end Workflow.Json
