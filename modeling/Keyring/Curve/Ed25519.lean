import Keyring.Curve.Weierstrass
import Keyring.Hash.Sha2

/-!
Signatures over the twisted Edwards curve -x² + y² = 1 + d x² y² over the field of 2 ^ 255 - 19
elements. The curve is worked on in its short Weierstrass form; `encode` goes back to the Edwards
coordinates that signatures and public keys write, and `decode?` comes from them.
-/
set_option autoImplicit false

namespace Keyring.Ed25519

def modulus : Nat := 0x7fffffffffffffffffffffffffffffffffffffffffffffffffffffffffffffed

def topBit : Nat := 0x8000000000000000000000000000000000000000000000000000000000000000

def order : Nat := 0x1000000000000000000000000000000014def9dea2f79cd65812631a5cf5d3ed

def curve : Curve where
  modulus := modulus
  a := 19298681539552699237261830834781317975544997444273427339909597334573241639236
  b := 55751746669818908907645289078257140818241103727901012315294400837956729358436

/-- How far the first coordinate is shifted against that of the Montgomery form. -/
def shift : Nat := 19298681539552699237261830834781317975544997444273427339909597334652188435537

/-- The square root of -486664 that scales the first Edwards coordinate. -/
def scale : Nat := 6853475219497561581579357271197624642482790079785650197046958215289687604742

def base : Curve.Point where
  x := 9 + shift
  y := 43114425171068552920764898935933967039370386198203806730763910166200978582548

theorem curve_contains_base : curve.Contains base := by decide +kernel

theorem scale_sq : scale * scale % modulus = modulus - 486664 := by decide +kernel

def quotient (num den : Nat) : Nat := num * (Modular.inverse? modulus den).getD 0 % modulus

def coordinates : Option Curve.Point → Nat × Nat
  | none => (0, 1)
  | some p =>
    let u := (p.x + (modulus - shift)) % modulus
    if u = 0 then (0, modulus - 1)
    else (quotient (scale * u) p.y, quotient (u + (modulus - 1)) (u + 1))

def ofCoordinates (x y : Nat) : Option Curve.Point :=
  if y = 1 then none
  else
    let u := quotient (1 + y) (1 + (modulus - y))
    some ⟨(u + shift) % modulus, quotient (scale * u) x⟩

/-- A point in 32 bytes: the second coordinate, least significant byte first, with the parity of the
first one in the spare top bit. -/
def encode (p : Option Curve.Point) : Bytes :=
  let (x, y) := coordinates p
  Bytes.ofNatReversed 32 (y + x % 2 * topBit)

def root? (n : Nat) : Option Nat :=
  let r := Modular.power modulus n ((modulus + 3) / 8)
  let r' := r * Modular.power modulus 2 ((modulus - 1) / 4) % modulus
  if r * r % modulus = n then some r else if r' * r' % modulus = n then some r' else none

def decode? (bs : Bytes) : Option (Option Curve.Point) :=
  let n := Bytes.toNatReversed bs
  let y := n % topBit % modulus
  let yy := y * y % modulus
  (root? (quotient (yy + (modulus - 1)) (1 + (modulus - quotient 121665 121666) * yy))).map fun x =>
    ofCoordinates (if x % 2 = n / topBit % 2 then x else (modulus - x) % modulus) y

def multipleOfBase (n : Nat) : Option Curve.Point := curve.point? (curve.multiple n base.toTriple)

structure PrivateKey where
  seed : Bytes
  length_seed : seed.length = 32
  deriving DecidableEq

def PrivateKey.ofSeed? (seed : Bytes) : Option PrivateKey :=
  if h : seed.length = 32 then some ⟨seed, h⟩ else none

structure PublicKey where
  bytes : Bytes
  length_bytes : bytes.length = 32
  deriving DecidableEq

def PublicKey.ofPoint (p : Option Curve.Point) : PublicKey := ⟨encode p, by simp [encode]⟩

/-- The secret multiplier of a key: 255 bits of its digest, the top one set and the three low ones
clear. -/
def PrivateKey.scalar (k : PrivateKey) : Nat :=
  let n := Bytes.toNatReversed ((sha512 k.seed).take 32)
  topBit / 2 + n % (topBit / 2) / 8 * 8

def PrivateKey.publicKey (k : PrivateKey) : PublicKey := .ofPoint (multipleOfBase k.scalar)

def multiplier (data : Bytes) : Nat := Bytes.toNatReversed (sha512 data) % order

def PrivateKey.nonce (k : PrivateKey) (message : Bytes) : Nat :=
  multiplier ((sha512 k.seed).drop 32 ++ message)

def sign (k : PrivateKey) (message : Bytes) : Bytes :=
  let r := k.nonce message
  let head := encode (multipleOfBase r)
  let c := multiplier (head ++ k.publicKey.bytes ++ message)
  head ++ Bytes.ofNatReversed 32 ((r + c * k.scalar) % order)

/-- Whether 64 bytes are a signature of the message: the second half is below the order, and the
first is the encoded point that it leads to. -/
def verifies (k : PublicKey) (message signature : Bytes) : Bool :=
  let head := signature.take 32
  let s := Bytes.toNatReversed (signature.drop 32)
  let c := multiplier (head ++ k.bytes ++ message)
  match decode? k.bytes with
  | none => false
  | some p =>
    let key := (p.map (fun p => (p.opposite curve).toTriple)).getD .infinity
    let point := curve.point? (curve.add (curve.multiple s base.toTriple) (curve.multiple c key))
    signature.length = 64 && s < order && encode point = head

end Keyring.Ed25519
