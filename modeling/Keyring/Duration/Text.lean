import Keyring.Duration
import Keyring.Decimal
import Keyring.Text.Blank

/-!
The text of a span of time, such as `1h 30m`: `text` writes the parts that are not zero, from years
down to nanoseconds; `ofText?` reads any sequence of numbers with units. A year has 365.25 days and a
month 30.44.
-/
set_option autoImplicit false

namespace Keyring.Duration

inductive Unit where
  | nanosecond | microsecond | millisecond | second | minute | hour | day | week | month | year
  deriving DecidableEq, Repr

def Unit.names : Unit → List String
  | .nanosecond => ["ns", "nanos", "nsec"]
  | .microsecond => ["us", "usec", "µs"]
  | .millisecond => ["ms", "millis", "msec"]
  | .second => ["s", "seconds", "second", "secs", "sec"]
  | .minute => ["m", "minutes", "minute", "min", "mins"]
  | .hour => ["h", "hours", "hour", "hr", "hrs"]
  | .day => ["day", "days", "d"]
  | .week => ["week", "weeks", "wk", "wks", "w"]
  | .month => ["month", "months", "M"]
  | .year => ["year", "years", "yr", "yrs", "y"]

def Unit.all : List Unit :=
  [.nanosecond, .microsecond, .millisecond, .second, .minute, .hour, .day, .week, .month, .year]

def Unit.ofName? (name : List Char) : Option Unit :=
  Unit.all.find? fun u => u.names.any (·.toList = name)

inductive Scale where
  | nanos (each : Nat)
  | seconds (each : Nat)
  deriving DecidableEq, Repr

def Unit.scale : Unit → Scale
  | .nanosecond => .nanos 1
  | .microsecond => .nanos 1000
  | .millisecond => .nanos 1000000
  | .second => .seconds 1
  | .minute => .seconds 60
  | .hour => .seconds 3600
  | .day => .seconds 86400
  | .week => .seconds 604800
  | .month => .seconds 2630016
  | .year => .seconds 31557600

/-- How a fraction of a unit counts: in nanoseconds up to the minute, and in whole seconds above. A
nanosecond has no fraction. -/
def Unit.fractionScale? : Unit → Option Scale
  | .nanosecond => none
  | .microsecond => some (.nanos 1000)
  | .millisecond => some (.nanos 1000000)
  | .second => some (.nanos 1000000000)
  | .minute => some (.nanos 60000000000)
  | u => some u.scale

def word? (n : Nat) : Option Nat := if n < secondsLimit then some n else none

/-- Adds seconds and nanoseconds to a span; every intermediate number has to fit 64 bits. -/
def add? (d : Duration) (seconds nanos : Nat) : Option Duration := do
  let nanos ← word? (d.nanos + nanos)
  let seconds ← word? (seconds + nanos / 1000000000)
  ofParts? (d.seconds + seconds) (nanos % 1000000000)

/-- Adds `num / den` of a scale, which has to come out whole. -/
def addScaled? (d : Duration) (scale : Scale) (num den : Nat) : Option Duration := do
  match scale with
  | .nanos each =>
    let n ← word? (num * each)
    if n % den = 0 then add? d 0 (n / den) else none
  | .seconds each =>
    let n ← word? (num * each)
    if n % den = 0 then add? d (n / den) 0 else none

structure Fraction where
  num : Nat
  den : Nat
  deriving DecidableEq, Repr

structure Quantity where
  whole : Nat
  fraction : Option Fraction
  deriving DecidableEq, Repr

def addQuantity? (d : Duration) (q : Quantity) (name : List Char) : Option Duration := do
  let u ← Unit.ofName? name
  let d ← addScaled? d u.scale q.whole 1
  match q.fraction with
  | none => return d
  | some f => addScaled? d (← u.fractionScale?) f.num f.den

def isUnitLetter (c : Char) : Bool :=
  ('a' ≤ c && c ≤ 'z') || ('A' ≤ c && c ≤ 'Z') || c = 'µ'

inductive Phase where
  | between (sum : Duration)
  | whole (sum : Duration) (number : Nat)
  | fraction (sum : Duration) (number : Nat) (digits : Fraction)
  /-- Within a unit, whose letters so far are in reverse order. -/
  | unit (sum : Duration) (quantity : Quantity) (letters : List Char)
  deriving DecidableEq, Repr

def appendDigit? (n d : Nat) : Option Nat := word? (10 * n + d)

def Phase.step? (c : Char) : Phase → Option Phase
  | .between sum =>
    match Decimal.digit? c with
    | some d => some (.whole sum d)
    | none => if Text.isBlank c then some (.between sum) else none
  | .whole sum n =>
    match Decimal.digit? c with
    | some d => (appendDigit? n d).map (.whole sum)
    | none =>
      if Text.isBlank c then some (.whole sum n)
      else if isUnitLetter c then some (.unit sum ⟨n, none⟩ [c])
      else if c = '.' then some (.fraction sum n ⟨0, 1⟩)
      else none
  | .fraction sum n f =>
    match Decimal.digit? c with
    | some d => do
      let den ← word? (10 * f.den)
      let num ← appendDigit? f.num d
      return .fraction sum n ⟨num, den⟩
    | none =>
      if Text.isBlank c then some (.fraction sum n f)
      else if isUnitLetter c && f.den ≠ 1 then some (.unit sum ⟨n, some f⟩ [c])
      else none
  | .unit sum q letters =>
    match Decimal.digit? c with
    | some d => (addQuantity? sum q letters.reverse).map (.whole · d)
    | none =>
      if Text.isBlank c then (addQuantity? sum q letters.reverse).map .between
      else if isUnitLetter c then some (.unit sum q (c :: letters))
      else none

def Phase.finish? : Phase → Option Duration
  | .between sum => some sum
  | .unit sum q letters => addQuantity? sum q letters.reverse
  | _ => none

def run? (p : Phase) : List Char → Option Duration
  | [] => p.finish?
  | c :: cs => (p.step? c).bind fun p => run? p cs

/-- Reads a span: a lone `0`, or numbers with units, of which there is at least one. -/
def ofText? (s : List Char) : Option Duration :=
  if s = ['0'] then some zero
  else if s.all Text.isBlank then none
  else run? (.between zero) s

def part (n : Nat) (name : List Char) : List (List Char) :=
  if n = 0 then [] else [Decimal.text n ++ name]

def plural (name : List Char) (n : Nat) : List Char := if n = 1 then name else name ++ ['s']

def parts (d : Duration) : List (List Char) :=
  let yearRest := d.seconds % 31557600
  let monthRest := yearRest % 2630016
  let dayRest := monthRest % 86400
  let years := d.seconds / 31557600
  let months := yearRest / 2630016
  let days := monthRest / 86400
  part years (plural "year".toList years) ++ part months (plural "month".toList months) ++
    part days (plural "day".toList days) ++
    part (dayRest / 3600) ['h'] ++ part (dayRest % 3600 / 60) ['m'] ++ part (dayRest % 60) ['s'] ++
    part (d.nanos / 1000000) ['m', 's'] ++ part (d.nanos / 1000 % 1000) ['u', 's'] ++
    part (d.nanos % 1000) ['n', 's']

def text (d : Duration) : List Char :=
  if d.isZero then ['0', 's'] else [' '].intercalate d.parts

end Keyring.Duration
