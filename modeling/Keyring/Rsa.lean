import Keyring.Curve.Modular
import Keyring.Hash.Sha2

set_option autoImplicit false

namespace Keyring.Rsa

structure PublicKey where
  modulus : Nat
  exponent : Nat
  deriving DecidableEq, Repr

def exponentLimit : Nat := 0x200000000

/-- What is required of the numbers of a private key. That the factors are primes is not. -/
structure Consistent (modulus publicExponent privateExponent p q : Nat) : Prop where
  odd_modulus : modulus % 2 = 1
  odd_exponent : publicExponent % 2 = 1
  exponent_range : 2 ≤ publicExponent ∧ publicExponent < exponentLimit ∧ publicExponent < modulus
  factors : p * q = modulus ∧ 1 < p ∧ 1 < q
  inverse : privateExponent * publicExponent % (p - 1) = 1 ∧ privateExponent * publicExponent % (q - 1) = 1

theorem consistent_iff (n e d p q : Nat) : Consistent n e d p q ↔
    n % 2 = 1 ∧ e % 2 = 1 ∧ (2 ≤ e ∧ e < exponentLimit ∧ e < n) ∧ (p * q = n ∧ 1 < p ∧ 1 < q) ∧
      d * e % (p - 1) = 1 ∧ d * e % (q - 1) = 1 :=
  ⟨fun h => ⟨h.1, h.2, h.3, h.4, h.5⟩, fun h => ⟨h.1, h.2.1, h.2.2.1, h.2.2.2.1, h.2.2.2.2⟩⟩

instance (n e d p q : Nat) : Decidable (Consistent n e d p q) :=
  decidable_of_iff' _ (consistent_iff n e d p q)

structure PrivateKey where
  modulus : Nat
  publicExponent : Nat
  privateExponent : Nat
  p : Nat
  q : Nat
  consistent : Consistent modulus publicExponent privateExponent p q
  deriving DecidableEq

namespace PrivateKey

def ofNumbers? (modulus publicExponent privateExponent p q : Nat) : Option PrivateKey :=
  if h : Consistent modulus publicExponent privateExponent p q then
    some ⟨modulus, publicExponent, privateExponent, p, q, h⟩
  else none

/-- The key with two factors and a public exponent, if the exponent can be undone. -/
def ofFactors? (p q publicExponent : Nat) : Option PrivateKey :=
  (Modular.inverse? ((p - 1) * (q - 1)) publicExponent).bind fun d => ofNumbers? (p * q) publicExponent d p q

def publicKey (k : PrivateKey) : PublicKey := ⟨k.modulus, k.publicExponent⟩

def exponentP (k : PrivateKey) : Nat := k.privateExponent % (k.p - 1)

def exponentQ (k : PrivateKey) : Nat := k.privateExponent % (k.q - 1)

/-- The inverse of the second factor modulo the first; there is none when the factors share one. -/
def coefficient? (k : PrivateKey) : Option Nat := Modular.inverse? k.p k.q

/-- The private power of a number, put together from those modulo the factors where that can be done. -/
def power (k : PrivateKey) (n : Nat) : Nat :=
  match k.coefficient? with
  | none => Modular.power k.modulus n k.privateExponent
  | some c =>
    let x := Modular.power k.p (n % k.p) k.exponentP
    let y := Modular.power k.q (n % k.q) k.exponentQ
    y + (x + (k.p - y % k.p)) * c % k.p * k.q

end PrivateKey

def PublicKey.size (k : PublicKey) : Nat := Bytes.width k.modulus

def digestHead : Bytes :=
  [0x30, 0x31, 0x30, 0x0d, 0x06, 0x09, 0x60, 0x86, 0x48, 0x01, 0x65, 0x03, 0x04, 0x02, 0x01, 0x05, 0x00,
    0x04, 0x20]

/-- The number that is raised to the private power to sign a message; nothing when fewer than eight
bytes would be left for the padding. -/
def padded? (size : Nat) (message : Bytes) : Option Nat :=
  let tail := digestHead ++ sha256 message
  if size < tail.length + 11 then none
  else some (Bytes.toNat (0 :: 1 :: (List.replicate (size - tail.length - 3) 0xff ++ 0 :: tail)))

inductive Fault where
  | messageTooLong
  | wrongPower
  deriving DecidableEq, Repr

def Fault.message : Fault → String
  | .messageTooLong => "message too long"
  | .wrongPower => "internal error"

def verifies (k : PublicKey) (message signature : Bytes) : Bool :=
  let s := Bytes.toNat signature
  match padded? k.size message with
  | none => false
  | some n => signature.length = k.size && s < k.modulus && Modular.power k.modulus s k.exponent = n

def sign (k : PrivateKey) (message : Bytes) : Except Fault Bytes :=
  match padded? k.publicKey.size message with
  | none => .error .messageTooLong
  | some n =>
    let s := k.power n
    if s < k.modulus ∧ Modular.power k.modulus s k.publicExponent = n then
      .ok (Bytes.ofNat k.publicKey.size s)
    else .error .wrongPower

end Keyring.Rsa
