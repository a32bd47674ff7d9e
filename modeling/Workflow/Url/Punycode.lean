/-!
# Punycode

Labels of host names with characters beyond ASCII are written in ASCII: the ASCII characters
first, then how to put the others between them, as numbers in base 36 whose digits end by falling
below a threshold that adapts to the numbers before.
-/
namespace Workflow.Url.Punycode

/-- The digit with a value below 36. -/
def digit (n : Nat) : Char := if n < 26 then Char.ofNat (97 + n) else Char.ofNat (22 + n)

def digitValue? (c : Char) : Option Nat :=
  if 'a' ≤ c ∧ c ≤ 'z' then some (c.toNat - 97)
  else if 'A' ≤ c ∧ c ≤ 'Z' then some (c.toNat - 65)
  else if c.isDigit then some (c.toNat - 22)
  else none

/-- Divides by 35 while the number is above 455, counting 36 for each division. -/
def damp : Nat → Nat → Nat → Nat
  | 0, _, k => k
  | fuel + 1, delta, k => if 455 < delta then damp fuel (delta / 35) (k + 36) else
      k + 36 * delta / (delta + 38)

/-- The bias after a number: `points` is how many characters are placed. -/
def adapt (delta points : Nat) (first : Bool) : Nat :=
  let d := if first then delta / 700 else delta / 2
  damp 32 (d + d / points) 0

/-- The threshold of the digit at a position, which counts in steps of 36. -/
def threshold (k bias : Nat) : Nat := if k ≤ bias then 1 else if bias + 26 ≤ k then 26 else k - bias

/-- The digits of a number.  Each step divides by at least ten. -/
def number : Nat → Nat → Nat → Nat → List Char
  | 0, _, _, _ => []
  | fuel + 1, q, k, bias =>
    let t := threshold k bias
    if q < t then [digit q]
    else digit (t + (q - t) % (36 - t)) :: number fuel ((q - t) / (36 - t)) (k + 36) bias

/-- The encoder between two characters. -/
structure Encoder where
  delta : Nat
  bias : Nat
  placed : Nat
  out : List Char

/-- Passes one character of the label while the characters with code `n` are placed. -/
def Encoder.pass (basic n : Nat) (e : Encoder) (c : Char) : Encoder :=
  if c.toNat < n then { e with delta := e.delta + 1 }
  else if c.toNat = n then
    { delta := 0
      bias := adapt e.delta (e.placed + 1) (e.placed == basic)
      placed := e.placed + 1
      out := e.out ++ number 64 e.delta 36 e.bias }
  else e

/-- Places the characters with the codes of the list, which is increasing. -/
def encodeCodes (cs : List Char) (basic : Nat) : Nat → List Nat → Encoder → Encoder
  | _, [], e => e
  | n, m :: rest, e =>
    let e' := { e with delta := e.delta + (m - n) * (e.placed + 1) }
    let e'' := cs.foldl (Encoder.pass basic m) e'
    encodeCodes cs basic (m + 1) rest { e'' with delta := e''.delta + 1 }

/-- Puts a number into an increasing list that does not hold it yet. -/
def insertCode (n : Nat) : List Nat → List Nat
  | [] => [n]
  | m :: rest =>
    if n < m then n :: m :: rest
    else if n = m then m :: rest
    else m :: insertCode n rest

/-- The ASCII form of a label, without its mark `xn--`. -/
def encode (cs : List Char) : List Char :=
  let basic := cs.filter (fun c => c.toNat < 128)
  let codes := (cs.filter (fun c => 128 ≤ c.toNat)).foldl (fun l c => insertCode c.toNat l) []
  let head := if basic.isEmpty then [] else basic ++ ['-']
  (encodeCodes cs basic.length 128 codes ⟨0, 72, basic.length, head⟩).out

/-- Reads one number: its value and the digits behind it. -/
def decodeNumber (bias : Nat) : List Char → (i weight k : Nat) → Option (Nat × List Char)
  | [], _, _, _ => none
  | c :: rest, i, weight, k =>
    match digitValue? c with
    | none => none
    | some d =>
      let i' := i + d * weight
      let t := threshold k bias
      if d < t then some (i', rest) else decodeNumber bias rest i' (weight * (36 - t)) (k + 36)

/-- Places characters for as long as there are digits. -/
def decodeFrom : Nat → List Char → (out : List Char) → (n i bias : Nat) → Option (List Char)
  | _, [], out, _, _, _ => some out
  | 0, _ :: _, _, _, _, _ => none
  | fuel + 1, cs, out, n, i, bias =>
    match decodeNumber bias cs i 1 36 with
    | none => none
    | some (i', rest) =>
      let size := out.length + 1
      let n' := n + i' / size
      let at' := i' % size
      if n' > 0x10FFFF || (0xD800 ≤ n' && n' ≤ 0xDFFF) then none
      else
        decodeFrom fuel rest (out.take at' ++ Char.ofNat n' :: out.drop at') n' (at' + 1)
          (adapt (i' - i) size (i == 0))

/-- The label of an ASCII form without its mark. -/
def decode? (cs : List Char) : Option (List Char) :=
  let tail := (cs.reverse.takeWhile (fun c => c != '-')).reverse
  let basic := (cs.take (cs.length - tail.length)).dropLast
  if cs.contains '-' then decodeFrom tail.length tail basic 128 0 72
  else decodeFrom cs.length cs [] 128 0 72

end Workflow.Url.Punycode
