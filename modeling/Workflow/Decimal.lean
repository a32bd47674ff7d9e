/-!
# Decimal text of binary numbers

A finite double is m · 2^q.  `Decimal.shortest` gives the fewest decimal digits that lie in the
interval of reals rounding to it, and of these the nearest to it; `Decimal.Layout` says how digits
are laid out as text.
-/
namespace Workflow.Decimal

/-- A positive number m · 2^q as the format holds it.  `narrow` marks a significand at the bottom of
its binade, where the gap below is half the gap above. -/
structure Binary where
  significand : Nat
  exponent : Int
  narrow : Bool

/-- The magnitude of a finite double other than zero. -/
def Binary.ofFloat (x : Float) : Binary :=
  let bits : Nat := x.toBits.toNat
  let fraction : Nat := bits % Nat.pow 2 52
  let field : Nat := bits / Nat.pow 2 52 % Nat.pow 2 11
  if field = 0 then ⟨fraction, -1074, false⟩
  else ⟨fraction + Nat.pow 2 52, (field : Int) - 1075, fraction == 0 && field > 1⟩

/-- Digits read as a whole number, and the power of ten they are scaled by. -/
structure Digits where
  whole : Nat
  scale : Int
  deriving DecidableEq

/-- The number of decimal digits of a positive number; one for zero. -/
def width (n : Nat) : Nat := (Nat.toDigits 10 n).length

/-- The exponent x with 10^x ≤ num / den < 10^(x + 1), for a positive fraction. -/
def magnitude (num den : Nat) : Int :=
  if den ≤ num then (width (num / den) : Int) - 1
  else
    let j := width (den / num) - 1
    if den ≤ num * Nat.pow 10 j then -(j : Int) else -(j : Int) - 1

/-- An interval of positive fractions with one denominator around the number it stands for. -/
structure Interval where
  low : Nat
  centre : Nat
  high : Nat
  den : Nat
  closed : Bool

/-- The reals that round to the number: half a gap below to half a gap above, with the ends when
the significand is even. -/
def Binary.interval (b : Binary) : Interval :=
  let below := if b.narrow then 1 else 2
  let s := Nat.pow 2 (b.exponent - 2).toNat
  { low := (4 * b.significand - below) * s
    centre := 4 * b.significand * s
    high := (4 * b.significand + 2) * s
    den := Nat.pow 2 (2 - b.exponent).toNat
    closed := b.significand % 2 == 0 }

/-- Whether the interval contains n · step / den. -/
def Interval.contains (i : Interval) (step den n : Nat) : Bool :=
  let x := n * step * i.den
  let low := i.low * den
  let high := i.high * den
  (low < x && x < high) || (i.closed && (x == low || x == high))

/-- The nearest point of the grid of multiples of 10^scale that lies in the interval.  Of two
points equally near the even one is taken. -/
def Interval.nearest? (i : Interval) (scale : Int) : Option Digits :=
  let step := Nat.pow 10 scale.toNat
  let den := Nat.pow 10 (-scale).toNat
  let n := i.centre * den / (step * i.den)
  let rest := i.centre * den % (step * i.den)
  let below := i.contains step den n
  let above := i.contains step den (n + 1)
  let nearerAbove := 2 * rest > step * i.den || (2 * rest == step * i.den && n % 2 == 1)
  if below && above then some ⟨if nearerAbove then n + 1 else n, scale⟩
  else if below then some ⟨n, scale⟩
  else if above then some ⟨n + 1, scale⟩
  else none

/-- Moves the trailing zeros of the digits into the scale. -/
def Digits.strip : Nat → Digits → Digits
  | 0, d => d
  | k + 1, d => if d.whole % 10 = 0 ∧ d.whole ≠ 0 then strip k ⟨d.whole / 10, d.scale + 1⟩ else d

/-- The fewest digits that lie in the interval of the number.  Seventeen always suffice. -/
def Binary.shortest (b : Binary) : Digits :=
  let i := b.interval
  let x := magnitude i.centre i.den
  let grids := (List.range 17).map (fun (k : Nat) => x - (k : Int))
  ((grids.findSome? i.nearest?).getD ⟨b.significand, b.exponent⟩).strip 20

/-- How digits d.ddd · 10^x become text: positional notation from the exponent `lowest` to the
exponent `highest`, scientific notation outside, with or without a plus sign. -/
structure Layout where
  lowest : Int
  highest : Int
  plus : Bool

def Layout.json : Layout := ⟨-5, 15, true⟩

def Layout.diagnostic : Layout := ⟨-4, 15, false⟩

/-- Positional notation with at least one digit on either side of the point. -/
def Digits.positional (d : Digits) : String :=
  let text := toString d.whole
  if 0 ≤ d.scale then text ++ String.ofList (List.replicate d.scale.toNat '0') ++ ".0"
  else
    let k := (-d.scale).toNat
    let padded := String.ofList (List.replicate (k + 1 - text.length) '0') ++ text
    let cs := padded.toList
    String.ofList (cs.take (cs.length - k)) ++ "." ++ String.ofList (cs.drop (cs.length - k))

/-- One digit before the point, no point without a second digit, and the exponent. -/
def Digits.scientific (plus : Bool) (d : Digits) : String :=
  let cs := (toString d.whole).toList
  let x := d.scale + (cs.length : Int) - 1
  let mantissa := match cs with
    | [] => ""
    | [c] => String.singleton c
    | c :: rest => String.ofList (c :: '.' :: rest)
  mantissa ++ "e" ++ (if x < 0 then "-" else if plus then "+" else "") ++ toString x.natAbs

def Layout.format (layout : Layout) (x : Float) : String :=
  let sign := if x.toBits.toNat / Nat.pow 2 63 = 1 then "-" else ""
  if x == 0.0 then sign ++ "0.0"
  else
    let d := (Binary.ofFloat x).shortest
    let exponent := d.scale + (width d.whole : Int) - 1
    sign ++ (if layout.lowest ≤ exponent && exponent ≤ layout.highest then d.positional
      else d.scientific layout.plus)

/-- The double that a whole number of at most 64 bits rounds to. -/
def ofWhole (n : Nat) : Float := (UInt64.ofNat n).toFloat

/-- The double next to 10^n, for n up to 308. -/
def powerOfTen (n : Nat) : Float := Float.ofScientific 1 false n

/-- Divides by 10^n.  Above n = 308 the power is no double, so the division is made in steps of
10^308; three of them leave nothing of any number below 2^64. -/
def scaleDown (x : Float) (n : Nat) : Float :=
  let steps := min ((n - 1) / 308) 3
  Nat.repeat (· / powerOfTen 308) steps x / powerOfTen (min (n - 308 * steps) 308)

/-- The double of `significand` · 10^`scale`, where the significand has at most 64 bits: the
significand is rounded to a double and then scaled.  None when it overflows. -/
def ofParts? (significand : Nat) (scale : Int) : Option Float :=
  let x := ofWhole significand
  if 0 ≤ scale then
    if scale ≤ 308 then
      let y := x * powerOfTen scale.toNat
      if y.isInf then none else some y
    else if x == 0.0 then some x else none
  else some (scaleDown x (-scale).toNat)

/-- Digits move between their two notations without a change of value. -/
example : (Digits.mk 15 (-1)).positional = "1.5" ∧ (Digits.mk 1 16).scientific true = "1e+16" := by
  cbv

end Workflow.Decimal
