import Workflow.Json.Basic
import Workflow.Json.Fault
import Workflow.Decimal
/-!
# Tokens of JSON text

A text is cut into tokens, each with the place before it and the place after it.  A number too large
for a double and a text with half a surrogate pair are tokens that carry their fault: whoever skips
the value never meets it.  Every other fault ends the tokens.
-/
namespace Workflow.Json

/-- A token of a JSON text.  A broken one remembers whether it opened with a quote. -/
inductive Token where
  | openArray
  | closeArray
  | openObject
  | closeObject
  | comma
  | colon
  | null
  | bool (value : Bool)
  | number (value : Except Fault Number)
  | string (text : Except Fault String)
  | stray
  | broken (quoted : Bool) (fault : Fault)

/-- A token with the place before it, the place one byte into it and the place after it. -/
structure Lexeme where
  token : Token
  start : Place
  peek : Place
  stop : Place

/-- The blanks between tokens. -/
def isSpace (c : Char) : Bool :=
  c == ' ' || c == '\n' || c == '\t' || c == '\r'

/-- What reading a piece of text gives: a result, the place after it and the rest of the text; or a
fault.  The rest is at most as long as the text. -/
inductive Piece (α : Type) (bound : Nat) where
  | fault (f : Fault)
  | read (value : α) (place : Place) (rest : List Char) (short : rest.length ≤ bound)

/-- A piece of a text is a piece of any longer one. -/
def Piece.widen {α : Type} {m n : Nat} (h : m ≤ n) : Piece α m → Piece α n
  | .fault f => .fault f
  | .read v p r s => .read v p r (Nat.le_trans s h)

/-- Changes the result of a piece. -/
def Piece.map {α β : Type} {n : Nat} (f : α → β) : Piece α n → Piece β n
  | .fault e => .fault e
  | .read v p r s => .read (f v) p r s

/-- Reads the remaining letters of a word whose first letter is already read. -/
def word (p : Place) : (letters : List Char) → (cs : List Char) → Piece Unit cs.length
  | [], cs => .read () p cs (Nat.le_refl _)
  | _ :: _, [] => .fault ⟨.endInValue, p⟩
  | l :: ls, c :: cs =>
    if c = l then (word (p.after c) ls cs).widen (Nat.le_succ _)
    else .fault ⟨.expectedWord, p.into c⟩

def digit? (c : Char) : Option Nat :=
  if '0' ≤ c ∧ c ≤ '9' then some (c.toNat - 48) else none

/-- The greatest significand that is kept exactly. -/
def maxSignificand : Nat := Nat.pow 2 64 - 1

/-- A significand under construction: its digits so far, and how many digits after them were dropped
(positive) or stand behind the point (negative).  Once a digit does not fit, all later ones are
dropped. -/
structure Mantissa where
  whole : Nat
  scale : Int
  full : Bool

/-- Takes a digit before the point. -/
def Mantissa.push (m : Mantissa) (d : Nat) : Mantissa :=
  if m.full || m.whole * 10 + d > maxSignificand then { m with scale := m.scale + 1, full := true }
  else { m with whole := m.whole * 10 + d }

/-- Takes a digit behind the point. -/
def Mantissa.pushFraction (m : Mantissa) (d : Nat) : Mantissa :=
  if m.full || m.whole * 10 + d > maxSignificand then { m with full := true }
  else { m with whole := m.whole * 10 + d, scale := m.scale - 1 }

/-- Reads digits for as long as there are any, feeding each to `push`. -/
def digits (push : α → Nat → α) (m : α) (p : Place) : (cs : List Char) → Piece α cs.length
  | [] => .read m p [] (Nat.le_refl _)
  | c :: cs =>
    match digit? c with
    | some d => (digits push (push m d) (p.after c) cs).widen (Nat.le_succ _)
    | none => .read m p (c :: cs) (Nat.le_refl _)

/-- The greatest exponent whose digits are all read. -/
def maxExponent : Nat := Nat.pow 2 31 - 1

/-- The double of a significand and a scale.  A scale beyond 32 bits stays at its limit. -/
def realOf (negative : Bool) (m : Mantissa) (exponent : Int) (p : Place) : Except Fault Number :=
  let limit : Int := Nat.pow 2 31
  let scale := max (-limit) (min (limit - 1) (m.scale + exponent))
  match Decimal.ofParts? m.whole scale with
  | some x => .ok (.real (if negative then -x else x))
  | none => .error ⟨.numberRange, p⟩

/-- Digits of an exponent: the value so far, and the place where it passed its limit. -/
structure Exponent where
  value : Nat
  overflow : Option Place

/-- Reads the digits of an exponent and notes where they pass the limit. -/
def exponentDigits (e : Exponent) (p : Place) : (cs : List Char) → Piece Exponent cs.length
  | [] => .read e p [] (Nat.le_refl _)
  | c :: cs =>
    match digit? c with
    | some d =>
      let next := e.value * 10 + d
      let e' : Exponent :=
        if e.overflow.isSome then e
        else if next > maxExponent then ⟨e.value, some (p.after c)⟩
        else ⟨next, none⟩
      (exponentDigits e' (p.after c) cs).widen (Nat.le_succ _)
    | none => .read e p (c :: cs) (Nat.le_refl _)

/-- Reads what follows the letter of an exponent. -/
def exponent (negative : Bool) (m : Mantissa) (p : Place) (cs : List Char) :
    Piece (Except Fault Number) cs.length :=
  let finish (down : Bool) (p : Place) (cs : List Char) : Piece (Except Fault Number) cs.length :=
    match cs with
    | [] => .fault ⟨.endInValue, p⟩
    | c :: rest =>
      match digit? c with
      | none => .fault ⟨.badNumber, p.into c⟩
      | some d =>
        match exponentDigits ⟨d, none⟩ (p.after c) rest with
        | .fault f => .fault f
        | .read e q r s =>
          let value : Except Fault Number :=
            match e.overflow with
            | some o =>
              if m.whole ≠ 0 ∧ down = false then .error ⟨.numberRange, o⟩
              else .ok (.real (if negative then -0.0 else 0.0))
            | none => realOf negative m (if down then -(e.value : Int) else (e.value : Int)) q
          .read value q r (Nat.le_succ_of_le s)
  match cs with
  | '+' :: rest => (finish false (p.after '+') rest).widen (Nat.le_succ _)
  | '-' :: rest => (finish true (p.after '-') rest).widen (Nat.le_succ _)
  | cs => finish false p cs

/-- Ends a number without an exponent, or goes on to its exponent. -/
def exponentOr (negative : Bool) (m : Mantissa) (plain : Place → Except Fault Number) (p : Place)
    (cs : List Char) : Piece (Except Fault Number) cs.length :=
  match cs with
  | 'e' :: rest => (exponent negative m (p.after 'e') rest).widen (Nat.le_succ _)
  | 'E' :: rest => (exponent negative m (p.after 'E') rest).widen (Nat.le_succ _)
  | cs => .read (plain p) p cs (Nat.le_refl _)

/-- The number of a significand that has neither point nor exponent: a whole number when it fits
into 64 bits, with the sign of zero kept by a double. -/
def wholeOf (negative : Bool) (m : Mantissa) (p : Place) : Except Fault Number :=
  if m.full then realOf negative m 0 p
  else if negative then
    if m.whole = 0 ∨ m.whole > Nat.pow 2 63 then .ok (.real (-(Decimal.ofWhole m.whole)))
    else .ok (.int (-(m.whole : Int)))
  else .ok (.int m.whole)

/-- Reads what follows the digits before the point. -/
def fractionOr (negative : Bool) (m : Mantissa) (p : Place) (cs : List Char) :
    Piece (Except Fault Number) cs.length :=
  match cs with
  | '.' :: rest =>
    match rest with
    | [] => .fault ⟨.endInValue, p.after '.'⟩
    | c :: tail =>
      match digit? c with
      | none => .fault ⟨.badNumber, (p.after '.').into c⟩
      | some d =>
        match digits Mantissa.pushFraction (m.pushFraction d) ((p.after '.').after c) tail with
        | .fault f => .fault f
        | .read m' q r s =>
          (exponentOr negative m' (realOf negative m' 0) q r).widen
            (Nat.le_succ_of_le (Nat.le_succ_of_le s))
  | cs => exponentOr negative m (wholeOf negative m) p cs

/-- Reads a number whose first digit is `d`.  A zero in front stands alone. -/
def numberFrom (negative : Bool) (d : Nat) (p : Place) (rest : List Char) :
    Piece (Except Fault Number) rest.length :=
  if d = 0 then
    match rest.head?.filter (fun c => (digit? c).isSome) with
    | some c => .fault ⟨.badNumber, p.into c⟩
    | none => fractionOr negative ⟨0, 0, false⟩ p rest
  else
    match digits Mantissa.push ⟨d, 0, false⟩ p rest with
    | .fault f => .fault f
    | .read m q r s => (fractionOr negative m q r).widen s

/-- Reads a number behind its minus sign. -/
def negated (p : Place) : (cs : List Char) → Piece (Except Fault Number) cs.length
  | [] => .fault ⟨.endInValue, p⟩
  | c :: rest =>
    match digit? c with
    | none => .fault ⟨.badNumber, p.into c⟩
    | some d => (numberFrom true d (p.after c) rest).widen (Nat.le_succ _)

def hexDigit? (c : Char) : Option Nat :=
  if '0' ≤ c ∧ c ≤ '9' then some (c.toNat - 48)
  else if 'a' ≤ c ∧ c ≤ 'f' then some (c.toNat - 87)
  else if 'A' ≤ c ∧ c ≤ 'F' then some (c.toNat - 55)
  else none

/-- The place a given number of bytes further on, if the text has that many. -/
def Place.skipBytes (p : Place) : Nat → List Char → Option Place
  | 0, _ => some p
  | _ + 1, [] => none
  | n + 1, c :: cs =>
    if c.utf8Size ≥ n + 1 then some (if c = '\n' then p.after c else ⟨p.line, p.column + (n + 1)⟩)
    else (p.after c).skipBytes (n + 1 - c.utf8Size) cs

/-- The place at the end of a text. -/
def Place.atEnd (p : Place) (cs : List Char) : Place := cs.foldl Place.after p

/-- Reads the four hexadecimal digits of an escape.  The escape takes four bytes in any case. -/
def fourHex (p : Place) (cs : List Char) : Piece Nat cs.length :=
  match cs with
  | a :: b :: c :: d :: rest =>
    match hexDigit? a, hexDigit? b, hexDigit? c, hexDigit? d with
    | some a', some b', some c', some d' =>
      .read (((a' * 16 + b') * 16 + c') * 16 + d') ⟨p.line, p.column + 4⟩ rest (by simp; omega)
    | _, _, _, _ =>
      .fault ⟨.badEscape, (p.skipBytes 4 (a :: b :: c :: d :: rest)).getD p⟩
  | cs =>
    match p.skipBytes 4 cs with
    | some q => .fault ⟨.badEscape, q⟩
    | none => .fault ⟨.endInString, p.atEnd cs⟩

/-- A part of a quoted text: a character, or a fault that only a reader of the text meets. -/
abbrev Part := Except Fault Char

/-- Reads an escape of a code unit whose letter is already read, with the second half of a pair. -/
def codeUnit (p : Place) (cs : List Char) : Piece Part cs.length :=
  match fourHex p cs with
  | .fault f => .fault f
  | .read n q rest s =>
    if 0xDC00 ≤ n ∧ n ≤ 0xDFFF then .read (.error ⟨.lonePart, q⟩) q rest s
    else if n < 0xD800 ∨ 0xDFFF < n then .read (.ok (Char.ofNat n)) q rest s
    else
      match rest with
      | [] => .fault ⟨.endInString, q⟩
      | '\\' :: [] => .fault ⟨.endInString, q.after '\\'⟩
      | '\\' :: 'u' :: more =>
        match fourHex ((q.after '\\').after 'u') more with
        | .fault f => .fault f
        | .read n' q' r t =>
          have h : r.length ≤ cs.length := by simp at s; omega
          if n' < 0xDC00 ∨ 0xDFFF < n' then .read (.error ⟨.lonePart, q'⟩) q' r h
          else .read (.ok (Char.ofNat ((n - 0xD800) * 0x400 + (n' - 0xDC00) + 0x10000))) q' r h
      | '\\' :: c :: more =>
        .read (.error ⟨.halfPair, (q.after '\\').into c⟩) (q.after '\\') (c :: more)
          (by simp at s ⊢; omega)
      | c :: more => .read (.error ⟨.halfPair, q.into c⟩) q (c :: more) s

/-- Reads the character of an escape behind its backslash. -/
def escape (p : Place) : (cs : List Char) → Piece Part cs.length
  | [] => .fault ⟨.endInString, p⟩
  | c :: rest =>
    let plain (d : Char) : Piece Part (c :: rest).length :=
      .read (.ok d) (p.after c) rest (Nat.le_succ _)
    match c with
    | '"' => plain '"'
    | '\\' => plain '\\'
    | '/' => plain '/'
    | 'b' => plain '\x08'
    | 'f' => plain '\x0c'
    | 'n' => plain '\n'
    | 'r' => plain '\r'
    | 't' => plain '\t'
    | 'u' => (codeUnit (p.after 'u') rest).widen (Nat.le_succ _)
    | c => .fault ⟨.badEscape, p.into c⟩

/-- Adds a part to a text under construction; the first fault stays. -/
def addPart (out : Except Fault String) (part : Part) : Except Fault String :=
  match out, part with
  | .ok s, .ok c => .ok (s.push c)
  | .ok _, .error f => .error f
  | .error f, _ => .error f

/-- Reads a quoted text behind its opening quote, to its closing quote. -/
def quoted (out : Except Fault String) (p : Place) (cs : List Char) :
    Piece (Except Fault String) cs.length :=
  match cs with
  | [] => .fault ⟨.endInString, p⟩
  | '"' :: rest => .read out (p.after '"') rest (Nat.le_succ _)
  | '\\' :: rest =>
    match escape (p.after '\\') rest with
    | .fault f => .fault f
    | .read part q r s => (quoted (addPart out part) q r).widen (Nat.le_succ_of_le s)
  | c :: rest =>
    if c.toNat < 0x20 then .fault ⟨.controlCharacter, p.after c⟩
    else (quoted (addPart out (.ok c)) (p.after c) rest).widen (Nat.le_succ _)
termination_by cs.length
decreasing_by
  · exact Nat.lt_succ_of_le s
  · exact Nat.lt_succ_self _

/-- Reads one token that starts with the given character. -/
def token (p : Place) (c : Char) (rest : List Char) : Piece Token rest.length :=
  let single (t : Token) : Piece Token rest.length :=
    .read t (p.after c) rest (Nat.le_refl _)
  match c with
  | '[' => single .openArray
  | ']' => single .closeArray
  | '\x7b' => single .openObject
  | '\x7d' => single .closeObject
  | ',' => single .comma
  | ':' => single .colon
  | 'n' => (word (p.after c) ['u', 'l', 'l'] rest).map (fun _ => .null)
  | 't' => (word (p.after c) ['r', 'u', 'e'] rest).map (fun _ => .bool true)
  | 'f' => (word (p.after c) ['a', 'l', 's', 'e'] rest).map (fun _ => .bool false)
  | '"' => (quoted (.ok "") (p.after c) rest).map .string
  | '-' => (negated (p.after c) rest).map .number
  | c =>
    match digit? c with
    | none => single .stray
    | some d => (numberFrom false d (p.after c) rest).map .number

/-- The tokens of a text, and the place at its end. -/
def tokens (p : Place) (cs : List Char) : List Lexeme × Place :=
  match cs with
  | [] => ([], p)
  | c :: rest =>
    if isSpace c then tokens (p.after c) rest
    else
      match token p c rest with
      | .fault f => ([⟨.broken (c == '"') f, p, p.into c, p⟩], p)
      | .read t q r s =>
        have : r.length < rest.length + 1 := Nat.lt_succ_of_le s
        let (more, stop) := tokens q r
        (⟨t, p, p.into c, q⟩ :: more, stop)
termination_by cs.length
decreasing_by
  · exact Nat.lt_succ_self _
  · exact this

end Workflow.Json
