import Keyring.Json.Reader

/-!
The number that a numeral writes. Whole numerals that fit 64 bits stay integers. All others become
binary floating point numbers: of the digits as many count as fit an unsigned word of 64 bits, and
that word is multiplied with or divided by a power of ten, each step rounded.
-/
set_option autoImplicit false

namespace Keyring.Json

def wordLimit : Nat := 0x10000000000000000

/-- Appends digits to a word as long as it fits; gives the word and how many digits were left. -/
def gather : Nat → List Nat → Nat × Nat
  | n, [] => (n, 0)
  | n, d :: ds => if 10 * n + d < wordLimit then gather (10 * n + d) ds else (n, ds.length + 1)

def powerOfTen (k : Nat) : Binary64 := (Binary64.ofNat? (Nat.pow 10 k)).getD (.zero false)

/-- A number times a power of ten; nothing when that is too great. Below the least power there is, it
is approached in steps. -/
def timesPower? (x : Binary64) (exponent : Int) : Option Binary64 :=
  if exponent.natAbs ≤ 308 then
    if 0 ≤ exponent then x.mul? (powerOfTen exponent.natAbs) else x.div? (powerOfTen exponent.natAbs)
  else if x.mantissa = 0 then some x
  else if _h : 0 ≤ exponent then none
  else (x.div? (powerOfTen 308)).bind (fun y => timesPower? y (exponent + 308))
termination_by (-exponent).toNat
decreasing_by omega

def digitsValue (ds : List Nat) : Nat := ds.foldl (fun n d => 10 * n + d) 0

def Numeral.float? (n : Numeral) : Option Binary64 :=
  let (word, left) := gather 0 n.whole
  let fraction := n.fraction.getD []
  let (word, unused) := gather word fraction
  let shift : Int := (left : Int) - ((fraction.length - unused : Nat) : Int)
  let (isSmall, exponent) := n.exponent.getD (false, [])
  let power := digitsValue exponent
  if 0x80000000 ≤ power then
    if word ≠ 0 ∧ !isSmall then none else some (.zero n.isNegative)
  else
    let x := (Binary64.ofNat? word).getD (.zero false)
    (timesPower? x (if isSmall then shift - power else shift + power)).map
      (fun y => if n.isNegative then y.neg else y)

def Numeral.number? (n : Numeral) : Option Number :=
  if n.fraction.isNone && n.exponent.isNone then
    let v := digitsValue n.whole
    if !n.isNegative && decide (v < wordLimit) then some (.integer v)
    else if n.isNegative && decide (0 < v ∧ v ≤ wordLimit / 2) then some (.integer (-v))
    else n.float?.map .float
  else n.float?.map .float

def Reader.number : Reader Number := do
  match (← numeral).number? with
  | none => fail .malformed
  | some n => pure n

def Number.text : Number → List Char
  | .integer n => Decimal.signed n
  | .float x => x.text

end Keyring.Json
