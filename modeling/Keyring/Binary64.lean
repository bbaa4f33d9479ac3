/-!
Binary floating point numbers of 64 bits, kept as exact scaled integers. `ofRatio?` rounds a quotient
to the nearest one, ties to even; products and quotients are computed exactly and rounded once.
-/
set_option autoImplicit false

namespace Keyring

/-- The finite number ± `mantissa` · 2 ^ `exponent`. A mantissa below 2 ^ 52 stands only at the least
exponent, so every number has one form, zero having one of each sign. -/
structure Binary64 where
  isNegative : Bool
  mantissa : Nat
  exponent : Int
  deriving DecidableEq, Repr

namespace Binary64

def leastExponent : Int := -1074
def greatestExponent : Int := 971

def zero (isNegative : Bool) : Binary64 := ⟨isNegative, 0, leastExponent⟩

def neg (x : Binary64) : Binary64 := { x with isNegative := !x.isNegative }

/-- The integer nearest to a quotient, an exact half going to the even one. -/
def roundQuotient (num den : Nat) : Nat :=
  let q := num / den
  let r := num % den
  if 2 * r < den then q
  else if den < 2 * r then q + 1
  else if q % 2 = 0 then q else q + 1

def scaled (num den : Nat) (exponent : Int) : Nat :=
  match exponent with
  | .ofNat e => roundQuotient num (den <<< e)
  | .negSucc e => roundQuotient (num <<< (e + 1)) den

def exponentOf (num den : Nat) : Int :=
  let guess : Int := (Nat.log2 num : Int) - (Nat.log2 den : Int) - 53
  let fits := match guess with
    | .ofNat e => decide (num < den <<< (e + 53))
    | .negSucc e => decide (num <<< (e + 1) < den <<< 53)
  max leastExponent (if fits then guess else guess + 1)

/-- The number nearest to a quotient of naturals; nothing when that is beyond the greatest one. -/
def ofRatio? (isNegative : Bool) (num den : Nat) : Option Binary64 :=
  if num = 0 then some (zero isNegative)
  else
    let e := exponentOf num den
    let m := scaled num den e
    let (m, e) := if m = 1 <<< 53 then (1 <<< 52, e + 1) else (m, e)
    if e ≤ greatestExponent then some ⟨isNegative, m, e⟩ else none

def ratio (x : Binary64) : Nat × Nat :=
  match x.exponent with
  | .ofNat e => (x.mantissa <<< e, 1)
  | .negSucc e => (x.mantissa, 1 <<< (e + 1))

def mul? (x y : Binary64) : Option Binary64 :=
  let (a, b) := x.ratio
  let (c, d) := y.ratio
  ofRatio? (x.isNegative != y.isNegative) (a * c) (b * d)

def div? (x y : Binary64) : Option Binary64 :=
  let (a, b) := x.ratio
  let (c, d) := y.ratio
  ofRatio? (x.isNegative != y.isNegative) (a * d) (b * c)

def ofNat? (n : Nat) : Option Binary64 := ofRatio? false n 1

end Binary64
end Keyring
