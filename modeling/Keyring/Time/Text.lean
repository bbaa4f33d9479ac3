import Keyring.Time
import Keyring.Decimal
import Keyring.Text.Blank

set_option autoImplicit false

namespace Keyring.Time

def secondOfDay (t : Time) : Nat := (t.seconds % 86400).toNat

def date (t : Time) : Date := Date.ofDays (t.seconds / 86400)

/-- A year of four digits, with a sign where it has more or is below zero. -/
def yearText (year : Int) : List Char :=
  if 0 ≤ year ∧ year ≤ 9999 then Decimal.padded 4 year.toNat
  else if year < 0 then '-' :: Decimal.padded 4 year.natAbs
  else '+' :: Decimal.padded 4 year.natAbs

/-- Decimals of a second, as few of 0, 3, 6 or 9 as are exact. -/
def decimalsText (nanos : Nat) : List Char :=
  if nanos = 0 then []
  else if nanos % 1000000 = 0 then '.' :: Decimal.padded 3 (nanos / 1000000)
  else if nanos % 1000 = 0 then '.' :: Decimal.padded 6 (nanos / 1000)
  else '.' :: Decimal.padded 9 nanos

/-- The text of a moment in universal time; inside a leap second the seconds are 60. -/
def text (t : Time) : List Char :=
  let d := t.date
  let s := t.secondOfDay
  let leap := t.nanos / 1000000000
  yearText d.year ++ '-' :: Decimal.padded 2 d.month.toNat ++ '-' :: Decimal.padded 2 d.day.toNat ++
    'T' :: Decimal.padded 2 (s / 3600) ++ ':' :: Decimal.padded 2 (s / 60 % 60) ++
    ':' :: Decimal.padded 2 (s % 60 + leap) ++ decimalsText (t.nanos % 1000000000) ++ ['Z']

def number? (most : Nat) (s : List Char) : Option (Nat × List Char) :=
  let ds := (s.takeWhile Decimal.isDigit).take most
  if ds = [] then none else some (Decimal.value ds, s.drop ds.length)

def field? (most : Nat) (s : List Char) : Option (Nat × List Char) := number? most (Text.skipBlank s)

/-- What follows a mark that white space may precede. -/
def mark? (c : Char) (s : List Char) : Option (List Char) :=
  match Text.skipBlank s with
  | d :: rest => if d = c then some rest else none
  | [] => none

/-- A year: up to four digits, or a sign and any number of them. -/
def year? (s : List Char) : Option (Int × List Char) :=
  match Text.skipBlank s with
  | '-' :: rest => (number? rest.length rest).map fun (n, r) => (-(n : Int), r)
  | '+' :: rest => (number? rest.length rest).map fun (n, r) => ((n : Int), r)
  | s => (number? 4 s).map fun (n, r) => ((n : Int), r)

/-- The nanoseconds of an optional decimal part; digits after the ninth do not count. -/
def decimals? : List Char → Option (Nat × List Char)
  | '.' :: rest =>
    (number? 9 rest).map fun (n, r) =>
      (n * Nat.pow 10 (9 - (rest.length - r.length)), r.dropWhile Decimal.isDigit)
  | s => some (0, s)

def pair? (top : Nat) : List Char → Option (Nat × List Char)
  | a :: b :: rest => do
    let m ← Decimal.digit? a
    let n ← Decimal.digit? b
    if m ≤ top then some (10 * m + n, rest) else none
  | _ => none

/-- A signed offset in seconds: hours and minutes of two digits, with colons or white space between
them. -/
def signedOffset? (isNegative : Bool) (s : List Char) : Option (Int × List Char) := do
  let (hours, s) ← pair? 9 s
  let (minutes, s) ← pair? 5 (s.dropWhile fun c => c = ':' || Text.isBlank c)
  let seconds : Int := ((hours * 3600 + minutes * 60 : Nat) : Int)
  return (if isNegative then -seconds else seconds, s)

/-- The offset of a zone, in seconds: a letter or name for universal time, or a signed offset. -/
def zone? (s : List Char) : Option (Int × List Char) :=
  if (s.take 3).map Char.toUpper = ['U', 'T', 'C'] then some (0, s.drop 3)
  else match s with
    | 'Z' :: rest | 'z' :: rest => some (0, rest)
    | '+' :: rest => signedOffset? false rest
    | '-' :: rest | '−' :: rest => signedOffset? true rest
    | _ => none

def separator? : List Char → Option (List Char)
  | 'T' :: rest | 't' :: rest | ' ' :: rest => some rest
  | _ => none

/-- The moment of a date and a reading of the clock at an offset from universal time. Second 60 is a
leap second in any minute. -/
def ofParts? (d : Date) (hour minute second nanos : Nat) (offset : Int) : Option Time :=
  let leap := if second = 60 then 1 else 0
  let day := d.toDays
  let seconds := day * 86400 + ((hour * 3600 + minute * 60 + (second - leap) : Nat) : Int) - offset
  if d.Exists ∧ hour ≤ 23 ∧ minute ≤ 59 ∧ second ≤ 60 ∧ offset.natAbs < 86400 ∧
      covers day ∧ covers (seconds / 86400) then
    some ⟨seconds, nanos + leap * 1000000000⟩
  else none

def ofText? (s : List Char) : Option Time := do
  let (year, s) ← year? s
  let s ← mark? '-' s
  let (month, s) ← field? 2 s
  let s ← mark? '-' s
  let (day, s) ← field? 2 s
  let s ← separator? s
  let (hour, s) ← field? 2 s
  let s ← mark? ':' s
  let (minute, s) ← field? 2 s
  let s ← mark? ':' s
  let (second, s) ← field? 2 s
  let (nanos, s) ← decimals? s
  let (offset, s) ← zone? (Text.skipBlank s)
  if Text.skipBlank s = [] then ofParts? ⟨year, month, day⟩ hour minute second nanos offset else none

end Keyring.Time
