import Keyring.Binary64
import Keyring.Decimal

/-!
The text of a floating point number: the fewest decimal digits that read back as it, positionally
from 0.00001 up to below 10 ^ 16 and otherwise with a signed exponent.
-/
set_option autoImplicit false

namespace Keyring.Binary64

structure Decimal where
  digits : Nat
  exponent : Int
  deriving DecidableEq, Repr

/-- Compares a decimal with `n` · 2 ^ `q`, exactly. -/
def Decimal.compareScaled (d : Decimal) (n : Nat) (q : Int) : Ordering :=
  compare ((d.digits * Nat.pow 10 d.exponent.toNat) <<< (-q).toNat)
    ((n * Nat.pow 10 (-d.exponent).toNat) <<< q.toNat)

/-- The decimal is among the reals that round to the number: those not beyond the middle between it
and its neighbours, the middles included where its mantissa is even. -/
def readsBack (x : Binary64) (d : Decimal) : Bool :=
  let narrow := x.mantissa = 1 <<< 52 ∧ leastExponent < x.exponent
  let low := if narrow then 4 * x.mantissa - 1 else 4 * x.mantissa - 2
  let high := 4 * x.mantissa + 2
  let closed := x.mantissa % 2 = 0
  let atLow := d.compareScaled low (x.exponent - 2)
  let atHigh := d.compareScaled high (x.exponent - 2)
  (atLow = .gt || (closed && atLow = .eq)) && (atHigh = .lt || (closed && atHigh = .eq))

def floorAt (x : Binary64) (power : Int) : Nat :=
  let (num, den) := x.ratio
  num * Nat.pow 10 (-power).toNat / (den * Nat.pow 10 power.toNat)

def scaleOf (x : Binary64) : Int :=
  let bits : Int := (Nat.log2 x.mantissa : Int) + x.exponent
  let guess : Int := Int.fdiv (bits * 30103) 100000
  let below (k : Int) : Bool := (Decimal.mk 1 k).compareScaled x.mantissa x.exponent = .gt
  if below (guess - 1) then guess - 1
  else if below guess then guess
  else if below (guess + 1) then guess + 1
  else guess + 2

/-- The candidates of a grid: the number rounded down and up to it, the nearer first and of two
equally near ones the even first. -/
def candidates (x : Binary64) (power : Int) : List Decimal :=
  let q := floorAt x power
  let down : Decimal := ⟨q, power⟩
  let up : Decimal := ⟨q + 1, power⟩
  match (Decimal.mk (2 * q + 1) power).compareScaled (2 * x.mantissa) x.exponent with
  | .gt => [down, up]
  | .lt => [up, down]
  | .eq => if q % 2 = 0 then [down, up] else [up, down]

def shortest (x : Binary64) : Decimal :=
  let scale := scaleOf x
  let grids := (List.range 17).flatMap fun n => candidates x (scale - (n + 1 : Nat))
  (grids.find? (readsBack x)).getD ⟨floorAt x (scale - 17), scale - 17⟩

def Decimal.stripped : (fuel : Nat) → Decimal → Decimal
  | 0, d => d
  | fuel + 1, d =>
    if d.digits % 10 = 0 ∧ d.digits ≠ 0 then Decimal.stripped fuel ⟨d.digits / 10, d.exponent + 1⟩
    else d

/-- The layout of digits whose first has the decimal exponent `lead`. -/
def layout (ds : List Char) (lead : Int) : List Char :=
  if -5 ≤ lead ∧ lead < 16 then
    match lead with
    | .ofNat k =>
      if ds.length ≤ k + 1 then ds ++ List.replicate (k + 1 - ds.length) '0' ++ ['.', '0']
      else ds.take (k + 1) ++ '.' :: ds.drop (k + 1)
    | .negSucc k => ['0', '.'] ++ List.replicate k '0' ++ ds
  else
    let point := if ds.length = 1 then ds else ds.take 1 ++ '.' :: ds.drop 1
    let sign := if lead < 0 then '-' else '+'
    point ++ 'e' :: sign :: Keyring.Decimal.text lead.natAbs

def text (x : Binary64) : List Char :=
  let sign := if x.isNegative then ['-'] else []
  if x.mantissa = 0 then sign ++ ['0', '.', '0']
  else
    let d := (shortest x).stripped 17
    let ds := Keyring.Decimal.text d.digits
    sign ++ layout ds (d.exponent + (ds.length : Int) - 1)

end Keyring.Binary64
