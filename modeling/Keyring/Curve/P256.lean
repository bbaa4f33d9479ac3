import Keyring.Curve.Weierstrass
import Keyring.Hash.Sha2

set_option autoImplicit false

namespace Keyring.P256

def curve : Curve where
  modulus := 0xffffffff00000001000000000000000000000000ffffffffffffffffffffffff
  a := 0xffffffff00000001000000000000000000000000fffffffffffffffffffffffc
  b := 0x5ac635d8aa3a93e7b3ebbd55769886bc651d06b0cc53b0f63bce3c3e27d2604b

def order : Nat := 0xffffffff00000000ffffffffffffffffbce6faada7179e84f3b9cac2fc632551

def base : Curve.Point where
  x := 0x6b17d1f2e12c4247f8bce6e563a440f277037d812deb33a0f4a13945d898c296
  y := 0x4fe342e2fe1a7f9b8ee7eb4a7c0f9e162bce33576b315ececbb6406837bf51f5

theorem curve_contains_base : curve.Contains base := by decide +kernel

structure PrivateKey where
  scalar : Nat
  positive : 0 < scalar
  below : scalar < order
  deriving DecidableEq

def PrivateKey.ofScalar? (n : Nat) : Option PrivateKey :=
  if h : 0 < n ∧ n < order then some ⟨n, h.1, h.2⟩ else none

structure PublicKey where
  point : Curve.Point
  x_lt : point.x < curve.modulus
  y_lt : point.y < curve.modulus
  deriving DecidableEq

def PublicKey.ofMultiple (t : Curve.Triple) : PublicKey :=
  match h : curve.point? t with
  | none => ⟨base, curve_contains_base.1, curve_contains_base.2.1⟩
  | some p => ⟨p, (Curve.point?_lt curve t p (by decide) h).1, (Curve.point?_lt curve t p (by decide) h).2⟩

def PrivateKey.publicKey (k : PrivateKey) : PublicKey := .ofMultiple (curve.multiple k.scalar base.toTriple)

structure Signature where
  r : Nat
  s : Nat
  r_range : 0 < r ∧ r < order
  s_range : 0 < s ∧ s < order
  deriving DecidableEq

def Signature.ofNumbers? (r s : Nat) : Option Signature :=
  if hr : 0 < r ∧ r < order then
    if hs : 0 < s ∧ s < order then some ⟨r, s, hr, hs⟩ else none
  else none

structure Generator where
  key : Bytes
  value : Bytes

def Generator.mix (g : Generator) (mark : UInt8) (data : Bytes) : Generator :=
  let key := hmacSha256 g.key (g.value ++ mark :: data)
  ⟨key, hmacSha256 key g.value⟩

/-- Starts the generator from a key and a digest, which goes in as it is, also where it is not below the
order. -/
def Generator.start (k : PrivateKey) (digest : Nat) : Generator :=
  let data := Bytes.ofNat 32 k.scalar ++ Bytes.ofNat 32 digest
  ((⟨List.replicate 32 0, List.replicate 32 1⟩ : Generator).mix 0 data).mix 1 data

/-- The first of the generator's numbers that is in range. The odds against a number are one in
2 ^ 32, so a few trials are as good as any number of them. -/
def Generator.nonce? : (trials : Nat) → Generator → Option Nat
  | 0, _ => none
  | trials + 1, g =>
    let value := hmacSha256 g.key g.value
    let n := Bytes.toNat value
    if 0 < n ∧ n < order then some n
    else Generator.nonce? trials ((⟨g.key, value⟩ : Generator).mix 0 [])

def abscissa (n : Nat) : Nat :=
  ((curve.point? (curve.multiple n base.toTriple)).map (fun p => p.x % order)).getD 0

def signWith? (k : PrivateKey) (digest nonce : Nat) : Option Signature := do
  let r := abscissa nonce
  let i ← Modular.inverse? order nonce
  Signature.ofNumbers? r (i * (digest + r * k.scalar) % order)

def sign? (k : PrivateKey) (message : Bytes) : Option Signature := do
  let digest := Bytes.toNat (sha256 message)
  signWith? k digest (← Generator.nonce? 64 (.start k digest))

def verifies (k : PublicKey) (message : Bytes) (sig : Signature) : Bool :=
  let digest := Bytes.toNat (sha256 message)
  match Modular.inverse? order sig.s with
  | none => false
  | some i =>
    let u := curve.multiple (digest * i % order) base.toTriple
    let v := curve.multiple (sig.r * i % order) k.point.toTriple
    match curve.point? (curve.add u v) with
    | none => false
    | some p => p.x % order = sig.r

/-- The standard forms of a point as bytes: with both coordinates, or with the first one and the
parity of the second. -/
def PublicKey.uncompressed (k : PublicKey) : Bytes :=
  4 :: (Bytes.ofNat 32 k.point.x ++ Bytes.ofNat 32 k.point.y)

def PublicKey.compressed (k : PublicKey) : Bytes :=
  (if k.point.y % 2 = 0 then 2 else 3) :: Bytes.ofNat 32 k.point.x

end Keyring.P256
