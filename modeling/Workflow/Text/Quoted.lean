import Workflow.Text.MarkTable
/-!
# Quoted text in diagnostics

A text in a diagnostic stands between quotes.  Quotes, backslashes, controls, marks and characters
that are not printed are escaped, so the diagnostic shows every character of the text.
-/
namespace Workflow.Text

/-- A character that is shown as its code point. -/
def escapeCode (c : Char) : String :=
  "\\u\x7b" ++ String.ofList (Nat.toDigits 16 c.toNat) ++ "\x7d"

/-- Whether a character is shown as it is. -/
def isShown (c : Char) : Bool :=
  let n := c.toNat
  if n < 0x7F then 0x20 ≤ n
  else !(inRanges markRanges n || inRanges extenderRanges n || inRanges unprintedRanges n)

/-- A character inside a quoted text. -/
def quoteChar (c : Char) : String :=
  match c with
  | '\x00' => "\\0"
  | '\t' => "\\t"
  | '\n' => "\\n"
  | '\r' => "\\r"
  | '"' => "\\\""
  | '\\' => "\\\\"
  | c => if isShown c then String.singleton c else escapeCode c

def quoted (s : String) : String :=
  s.toList.foldl (fun out c => out ++ quoteChar c) "\"" ++ "\""

end Workflow.Text
