import Workflow.Text.Blank
/-!
# Timestamps

Moments on the UTC time scale, read and written in the Internet date and time format.  Reading
allows blanks between the parts, a blank in place of the `T`, and any offset below a day; writing
gives UTC with as many groups of three fraction digits as are needed.
-/
namespace Workflow

/-- A moment: seconds since the start of 1970, and nanoseconds in that second.  During a leap
second, which repeats the number of the second before it, the nanoseconds go on beyond a thousand
million. -/
structure Timestamp where
  seconds : Int
  nanos : Nat
  deriving DecidableEq, Inhabited

/-- A day of the Gregorian calendar. -/
structure Day where
  year : Int
  month : Nat
  day : Nat
  deriving DecidableEq

namespace Day

def isLeap (year : Int) : Bool := year % 4 == 0 && (year % 100 != 0 || year % 400 == 0)

def monthLength (year : Int) (month : Nat) : Nat :=
  match month with
  | 2 => if isLeap year then 29 else 28
  | 4 | 6 | 9 | 11 => 30
  | _ => 31

/-- The number of days from the start of 1970.  Years are counted from March, so the leap day comes
last. -/
def number (d : Day) : Int :=
  let y := if d.month ≤ 2 then d.year - 1 else d.year
  let era := y / 400
  let yearOfEra := y % 400
  let m : Int := if d.month ≤ 2 then d.month + 9 else d.month - 3
  let dayOfYear := (153 * m + 2) / 5 + d.day - 1
  era * 146097 + (yearOfEra * 365 + yearOfEra / 4 - yearOfEra / 100 + dayOfYear) - 719468

def ofNumber (n : Int) : Day :=
  let z := n + 719468
  let era := z / 146097
  let dayOfEra := z % 146097
  let yearOfEra :=
    (dayOfEra - dayOfEra / 1460 + dayOfEra / 36524 - dayOfEra / 146096) / 365
  let dayOfYear := dayOfEra - (365 * yearOfEra + yearOfEra / 4 - yearOfEra / 100)
  let m := (5 * dayOfYear + 2) / 153
  let day := (dayOfYear - (153 * m + 2) / 5 + 1).toNat
  let month := (if m < 10 then m + 3 else m - 9).toNat
  ⟨yearOfEra + era * 400 + (if month ≤ 2 then 1 else 0), month, day⟩

/-- Whether there is such a day, in the years that timestamps reach. -/
def isValid (d : Day) : Bool :=
  -262143 ≤ d.year && d.year ≤ 262142 && 1 ≤ d.month && d.month ≤ 12 && 1 ≤ d.day &&
    d.day ≤ monthLength d.year d.month

/-- The leap day of 2024 and the day before 1970. -/
example : number ⟨2024, 2, 29⟩ = 19782 ∧ ofNumber 19782 = ⟨2024, 2, 29⟩ ∧
    ofNumber (-1) = ⟨1969, 12, 31⟩ := by decide

end Day

namespace Timestamp

/-- What is left of a text after reading a number of at most `width` digits, and the number. -/
def readNumber? (width : Nat) (cs : List Char) : Option (Nat × List Char) :=
  let ds := (cs.take width).takeWhile Char.isDigit
  if ds.isEmpty then none
  else some (ds.foldl (fun n c => n * 10 + (c.toNat - 48)) 0, cs.drop ds.length)

/-- Reads a number behind blanks. -/
def readPart? (width : Nat) (cs : List Char) : Option (Nat × List Char) :=
  readNumber? width (Text.trimLeft cs)

/-- Reads a year: four digits, or any number of digits behind a sign. -/
def readYear? (cs : List Char) : Option (Int × List Char) :=
  match Text.trimLeft cs with
  | '-' :: rest => (readNumber? rest.length rest).map (fun (n, r) => (-(n : Int), r))
  | '+' :: rest => (readNumber? rest.length rest).map (fun (n, r) => ((n : Int), r))
  | cs => (readNumber? 4 cs).map (fun (n, r) => ((n : Int), r))

/-- Reads a character behind blanks. -/
def readMark? (c : Char) (cs : List Char) : Option (List Char) :=
  match Text.trimLeft cs with
  | d :: rest => if d = c then some rest else none
  | [] => none

/-- Reads a fraction of a second, if there is one; digits after the ninth are dropped. -/
def readFraction? (cs : List Char) : Option (Nat × List Char) :=
  match cs with
  | '.' :: rest =>
    match readNumber? 9 rest with
    | none => none
    | some (n, _) =>
      let ds := rest.takeWhile Char.isDigit
      some (n * Nat.pow 10 (9 - min 9 ds.length), rest.drop ds.length)
  | cs => some (0, cs)

/-- Reads an offset from UTC in seconds. -/
def readOffset? (cs : List Char) : Option (Int × List Char) :=
  let numeric (sign : Int) (cs : List Char) : Option (Int × List Char) :=
    match cs with
    | h1 :: h2 :: rest =>
      if !(h1.isDigit && h2.isDigit) then none
      else
        match rest.dropWhile (fun c => c == ':' || Text.isBlankChar c) with
        | m1 :: m2 :: rest =>
          if m1.isDigit && m2.isDigit && m1 ≤ '5' then
            let hours := (h1.toNat - 48) * 10 + (h2.toNat - 48)
            let minutes := (m1.toNat - 48) * 10 + (m2.toNat - 48)
            some (sign * ((hours * 3600 + minutes * 60 : Nat) : Int), rest)
          else none
        | _ => none
    | _ => none
  match cs with
  | 'Z' :: rest | 'z' :: rest => some (0, rest)
  | '+' :: rest => numeric 1 rest
  | '-' :: rest | '−' :: rest => numeric (-1) rest
  | a :: b :: c :: rest =>
    if [a, b, c].map Char.toLower = ['u', 't', 'c'] then some (0, rest) else none
  | _ => none

def ofText? (text : String) : Option Timestamp := do
  let (year, cs) ← readYear? text.toList
  let cs ← readMark? '-' cs
  let (month, cs) ← readPart? 2 cs
  let cs ← readMark? '-' cs
  let (day, cs) ← readPart? 2 cs
  let cs ← match cs with
    | c :: rest => if c = 'T' ∨ c = 't' ∨ c = ' ' then some rest else none
    | [] => none
  let (hour, cs) ← readPart? 2 cs
  let cs ← readMark? ':' cs
  let (minute, cs) ← readPart? 2 cs
  let cs ← readMark? ':' cs
  let (second, cs) ← readPart? 2 cs
  let (fraction, cs) ← readFraction? cs
  let (offset, cs) ← readOffset? (Text.trimLeft cs)
  if !(Text.trimLeft cs).isEmpty then none
  else
    let d : Day := ⟨year, month, day⟩
    if !d.isValid || hour > 23 || minute > 59 || second > 60 || offset.natAbs ≥ 86400 then none
    else
      let leap := second = 60
      let time : Nat := hour * 3600 + minute * 60 + (if leap then 59 else second)
      let t : Timestamp :=
        ⟨d.number * 86400 + time - offset, fraction + (if leap then 1000000000 else 0)⟩
      if (Day.ofNumber (t.seconds / 86400)).isValid then some t else none

/-- A number with at least the given number of digits. -/
def padded (width n : Nat) : String :=
  let s := toString n
  String.ofList (List.replicate (width - s.length) '0') ++ s

/-- A year with at least four digits, and with a sign when it has more or is negative. -/
def yearText (y : Int) : String :=
  if 0 ≤ y ∧ y ≤ 9999 then padded 4 y.toNat
  else (if y < 0 then "-" else "+") ++ padded 4 y.natAbs

/-- The fraction of a second in groups of three digits. -/
def fractionText (nanos : Nat) : String :=
  if nanos = 0 then ""
  else if nanos % 1000000 = 0 then "." ++ padded 3 (nanos / 1000000)
  else if nanos % 1000 = 0 then "." ++ padded 6 (nanos / 1000)
  else "." ++ padded 9 nanos

def text (t : Timestamp) : String :=
  let d := Day.ofNumber (t.seconds / 86400)
  let time := (t.seconds % 86400).toNat
  let leap := 1000000000 ≤ t.nanos
  yearText d.year ++ "-" ++ padded 2 d.month ++ "-" ++ padded 2 d.day ++ "T" ++
    padded 2 (time / 3600) ++ ":" ++ padded 2 (time / 60 % 60) ++ ":" ++
    padded 2 (time % 60 + if leap then 1 else 0) ++
    fractionText (if leap then t.nanos - 1000000000 else t.nanos) ++ "Z"

end Timestamp
end Workflow
