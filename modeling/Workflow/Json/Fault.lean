/-!
# Faults in JSON text

A fault names what is wrong and the place where reading stopped.  Lines count from one; a column is
the number of bytes read on its line.
-/
namespace Workflow.Json

/-- How far a text has been read: the line, and the bytes read on it. -/
structure Place where
  line : Nat
  column : Nat
  deriving DecidableEq, Inhabited

def Place.start : Place := ⟨1, 0⟩

/-- The place after a character. -/
def Place.after (p : Place) (c : Char) : Place :=
  if c = '\n' then ⟨p.line + 1, 0⟩ else ⟨p.line, p.column + c.utf8Size⟩

/-- The place after the first byte of a character. -/
def Place.into (p : Place) (c : Char) : Place :=
  if c = '\n' then ⟨p.line + 1, 0⟩ else ⟨p.line, p.column + 1⟩

/-- What can be wrong with a JSON text. -/
inductive Fault.Cause where
  | endInValue
  | endInArray
  | endInObject
  | endInString
  | expectedValue
  | expectedWord
  | expectedColon
  | expectedItemEnd
  | expectedMemberEnd
  | keyNotString
  | trailingComma
  | trailingText
  | badNumber
  | numberRange
  | badEscape
  | halfPair
  | lonePart
  | controlCharacter
  | tooDeep
  deriving DecidableEq

/-- A fault and where reading stopped. -/
structure Fault where
  cause : Fault.Cause
  place : Place
  deriving DecidableEq

def Fault.Cause.text : Fault.Cause → String
  | .endInValue => "EOF while parsing a value"
  | .endInArray => "EOF while parsing a list"
  | .endInObject => "EOF while parsing an object"
  | .endInString => "EOF while parsing a string"
  | .expectedValue => "expected value"
  | .expectedWord => "expected ident"
  | .expectedColon => "expected `:`"
  | .expectedItemEnd => "expected `,` or `]`"
  | .expectedMemberEnd => "expected `,` or `\x7d`"
  | .keyNotString => "key must be a string"
  | .trailingComma => "trailing comma"
  | .trailingText => "trailing characters"
  | .badNumber => "invalid number"
  | .numberRange => "number out of range"
  | .badEscape => "invalid escape"
  | .halfPair => "unexpected end of hex escape"
  | .lonePart => "lone leading surrogate in hex escape"
  | .controlCharacter => "control character (\\u0000-\\u001F) found while parsing a string"
  | .tooDeep => "recursion limit exceeded"

/-- A text followed by the place it speaks of. -/
def Place.locate (p : Place) (text : String) : String :=
  text ++ " at line " ++ toString p.line ++ " column " ++ toString p.column

def Fault.message (f : Fault) : String := f.place.locate f.cause.text

end Workflow.Json
