import Workflow.Text.Blank
/-!
# Percent encoding

Characters that may not stand in a part of an address are written as the bytes of their UTF-8
form, each behind a percent sign.  Which characters these are depends on the part.
-/
namespace Workflow.Url

/-- A byte behind a percent sign, in upper case. -/
def encodeByte (b : UInt8) : List Char :=
  let digit (n : Nat) : Char := (Nat.digitChar n).toUpper
  ['%', digit (b.toNat / 16), digit (b.toNat % 16)]

/-- The bytes of a character behind percent signs. -/
def encodeChar (c : Char) : List Char :=
  (String.singleton c).toUTF8.toList.flatMap encodeByte

/-- Encodes the characters of the class, and all that are no printed ASCII characters. -/
def encode (escaped : Char → Bool) (cs : List Char) : List Char :=
  cs.flatMap (fun c =>
    if c.toNat < 0x20 || 0x7E < c.toNat || escaped c then encodeChar c else [c])

/-- What is encoded in a fragment. -/
def inFragment (c : Char) : Bool := [' ', '"', '<', '>', '\x60'].contains c

/-- What is encoded in a path. -/
def inPath (c : Char) : Bool := inFragment c || ['#', '?', '\x7b', '\x7d'].contains c

/-- What is encoded in a query of an address with a well-known scheme. -/
def inQuery (c : Char) : Bool := [' ', '"', '#', '<', '>', '\''].contains c

/-- What is encoded in the name and password of a user. -/
def inUserInfo (c : Char) : Bool :=
  inPath c || ['/', ':', ';', '=', '@', '[', '\\', ']', '^', '|'].contains c

/-- The value of a hexadecimal digit. -/
def hexValue? (c : Char) : Option Nat :=
  if c.isDigit then some (c.toNat - 48)
  else if 'a' ≤ c ∧ c ≤ 'f' then some (c.toNat - 87)
  else if 'A' ≤ c ∧ c ≤ 'F' then some (c.toNat - 55)
  else none

/-- The bytes of a text in which every percent sign before two hexadecimal digits stands for a
byte. -/
def decodeBytes : List Char → List UInt8
  | '%' :: a :: b :: rest =>
    match hexValue? a, hexValue? b with
    | some x, some y => UInt8.ofNat (x * 16 + y) :: decodeBytes rest
    | _, _ => (37 : UInt8) :: decodeBytes (a :: b :: rest)
  | c :: rest => (String.singleton c).toUTF8.toList ++ decodeBytes rest
  | [] => []

/-- The text that a list of bytes encodes. -/
def textOfBytes? (bytes : List UInt8) : Option String :=
  String.fromUTF8? ⟨bytes.toArray⟩

end Workflow.Url
