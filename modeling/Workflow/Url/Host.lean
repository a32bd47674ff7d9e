import Workflow.Text.Case
import Workflow.Url.Percent
import Workflow.Url.Punycode
/-!
# Hosts

A host is a name or an address.  Names are brought to lower case and to ASCII; a name whose last
label is a number must be an IPv4 address, and what stands in brackets must be an IPv6 address.
-/
namespace Workflow.Url

/-- Why a text is no address. -/
inductive UrlError where
  | noScheme
  | emptyHost
  | badPort
  | badIPv4
  | badIPv6
  | badName
  | badHostCharacter
  deriving DecidableEq

def UrlError.message : UrlError → String
  | .noScheme => "relative URL without a base"
  | .emptyHost => "empty host"
  | .badPort => "invalid port number"
  | .badIPv4 => "invalid IPv4 address"
  | .badIPv6 => "invalid IPv6 address"
  | .badName => "invalid international domain name"
  | .badHostCharacter => "invalid domain character"

/-- The pieces of a list between the elements that satisfy a test. -/
def splitBy {α : Type u} (p : α → Bool) : List α → List (List α)
  | [] => [[]]
  | a :: rest =>
    match p a, splitBy p rest with
    | true, pieces => [] :: pieces
    | false, piece :: pieces => (a :: piece) :: pieces
    | false, [] => [[a]]

/-- Reads a number in a base; the digits must be below it. -/
def numberIn? (base : Nat) (cs : List Char) : Option Nat :=
  cs.foldl (fun n c =>
    match n, hexValue? c with
    | some n, some d => if d < base then some (n * base + d) else none
    | _, _ => none) (some 0)

/-- Reads one number of an IPv4 address: hexadecimal behind `0x`, octal behind `0`, else decimal. -/
def ipv4Number? (cs : List Char) : Option Nat :=
  match cs with
  | [] => none
  | '0' :: 'x' :: rest | '0' :: 'X' :: rest => numberIn? 16 rest
  | '0' :: c :: rest => numberIn? 8 (c :: rest)
  | cs => numberIn? 10 cs

/-- The labels of a name, without the empty one behind a final point. -/
def labels (cs : List Char) : List (List Char) :=
  let l := splitBy (fun c => c == '.') cs
  if l.getLast? = some [] then l.dropLast else l

/-- Whether the last label of a name is a number. -/
def endsInNumber (cs : List Char) : Bool :=
  match (labels cs).getLast? with
  | none => false
  | some last => (!last.isEmpty && last.all Char.isDigit) || (ipv4Number? last).isSome

/-- Reads an IPv4 address of up to four numbers; the last one fills the bytes that are left. -/
def ipv4? (cs : List Char) : Option Nat :=
  let parts := labels cs
  if parts.length > 4 then none
  else
    match parts.mapM ipv4Number? with
    | none => none
    | some numbers =>
      match numbers.getLast? with
      | none => none
      | some last =>
        let heads := numbers.dropLast
        if last ≥ Nat.pow 256 (4 - heads.length) || heads.any (fun n => n > 255) then none
        else
          some (heads.zipIdx.foldl (fun sum (n, i) => sum + n * Nat.pow 256 (3 - i)) last)

/-- The four numbers of an IPv4 address. -/
def ipv4Text (n : Nat) : String :=
  ".".intercalate ([3, 2, 1, 0].map (fun i => toString (n / Nat.pow 256 i % 256)))

/-- One group of an IPv6 address: one to four hexadecimal digits. -/
def group? (cs : List Char) : Option Nat :=
  if cs.isEmpty || cs.length > 4 then none else numberIn? 16 cs

/-- A byte in the IPv4 form at the end of an IPv6 address: decimal, without a zero in front. -/
def byte? (cs : List Char) : Option Nat :=
  match cs with
  | [] => none
  | '0' :: _ :: _ => none
  | cs => (numberIn? 10 cs).filter (fun n => n ≤ 255)

/-- The groups of one side of an IPv6 address; an IPv4 address may stand at the end of the last side
and counts as two groups. -/
def groups? (isLast : Bool) : List (List Char) → Option (List Nat)
  | [] => some []
  | [g] =>
    if isLast && g.contains '.' then
      match (splitBy (fun c => c == '.') g).mapM byte? with
      | some [a, b, c, d] => some [a * 256 + b, c * 256 + d]
      | _ => none
    else (group? g).map ([·])
  | g :: rest =>
    match group? g, groups? isLast rest with
    | some n, some l => some (n :: l)
    | _, _ => none

/-- Splits a text at the first pair of colons. -/
def splitDoubleColon : List Char → Option (List Char × List Char)
  | ':' :: ':' :: rest => some ([], rest)
  | c :: rest => (splitDoubleColon rest).map (fun (a, b) => (c :: a, b))
  | [] => none

/-- The groups of a side, which may be empty. -/
def side? (isLast : Bool) (cs : List Char) : Option (List Nat) :=
  if cs.isEmpty then some [] else groups? isLast (splitBy (fun c => c == ':') cs)

/-- Reads an IPv6 address; a pair of colons stands for at least one group of zeros. -/
def ipv6? (cs : List Char) : Option (List Nat) :=
  match splitDoubleColon cs with
  | none => (side? true cs).filter (fun l => l.length == 8)
  | some (a, b) =>
    match side? false a, side? true b with
    | some l, some r =>
      if l.length + r.length ≤ 7 then some (l ++ List.replicate (8 - l.length - r.length) 0 ++ r)
      else none
    | _, _ => none

/-- The first longest run of zeros, as its start and length, if it has at least two. -/
def longestZeros (l : List Nat) : Option (Nat × Nat) :=
  let runs := (List.range l.length).map (fun i => (i, ((l.drop i).takeWhile (· == 0)).length))
  let best := runs.foldl (fun b r => if r.2 > b.2 then r else b) (0, 1)
  if best.2 ≥ 2 then some best else none

/-- An IPv6 address in its shortest form. -/
def ipv6Text (l : List Nat) : String :=
  let hex (l : List Nat) : String :=
    ":".intercalate (l.map (fun n => String.ofList (Nat.toDigits 16 n)))
  match longestZeros l with
  | some (start, length) => hex (l.take start) ++ "::" ++ hex (l.drop (start + length))
  | none => hex l

/-- The ASCII characters that no name may have. -/
def isForbidden (c : Char) : Bool :=
  c.toNat ≤ 0x20 || c.toNat == 0x7F ||
    ['%', '#', '/', ':', '<', '>', '?', '@', '[', '\\', ']', '^', '|'].contains c

/-- The characters that names are rid of or that stand for others: invisible joiners and wide
forms. -/
def foldHostChar (c : Char) : List Char :=
  let n := c.toNat
  if n == 0xAD || n == 0x200B || n == 0x2060 || n == 0xFEFF then []
  else if n == 0x3002 || n == 0xFF61 then ['.']
  else if 0xFF01 ≤ n && n ≤ 0xFF5E then [Char.ofNat (n - 0xFEE0)]
  else if c == 'ẞ' then ['s', 's']
  else [c]

/-- The ASCII form of a label. -/
def labelToAscii? (cs : List Char) : Option (List Char) :=
  if cs.any isForbidden then none
  else if cs.all (fun c => c.toNat < 128) then
    match cs with
    | 'x' :: 'n' :: '-' :: '-' :: rest =>
      match Punycode.decode? rest with
      | some l => if l.all (fun c => c.toNat < 128) then none else some cs
      | none => none
    | cs => some cs
  else some ('x' :: 'n' :: '-' :: '-' :: Punycode.encode cs)

/-- The ASCII form of a name. -/
def nameToAscii? (s : String) : Option (List Char) :=
  let folded := (s.toList.flatMap foldHostChar).map (fun c =>
    if c.toNat < 128 then c.toLower else (Text.mapCase? Text.lowerRuns c).getD c)
  ((splitBy (fun c => c == '.') folded).mapM labelToAscii?).map (fun l => List.intercalate ['.'] l)

/-- The host of an address with a well-known scheme, in its normal form. -/
def hostText (cs : List Char) : Except UrlError String :=
  match cs with
  | [] => .error .emptyHost
  | '[' :: rest =>
    match rest.reverse with
    | ']' :: inner =>
      match ipv6? inner.reverse with
      | some l => .ok ("[" ++ ipv6Text l ++ "]")
      | none => .error .badIPv6
    | _ => .error .badIPv6
  | cs =>
    match (textOfBytes? (decodeBytes cs)).bind nameToAscii? with
    | none => .error .badName
    | some name =>
      if name.isEmpty then .error .emptyHost
      else if endsInNumber name then
        match ipv4? name with
        | some n => .ok (ipv4Text n)
        | none => .error .badIPv4
      else .ok (String.ofList name)

/-- The host of an address with any other scheme. -/
def opaqueHostText (cs : List Char) : Except UrlError String :=
  match cs with
  | '[' :: _ => hostText cs
  | cs =>
    if cs.any (fun c => isForbidden c && c != '%' && !(c.toNat < 0x20 && c.toNat != 0) &&
      c.toNat != 0x7F) then .error .badHostCharacter
    else .ok (String.ofList (encode (fun _ => false) cs))

end Workflow.Url
