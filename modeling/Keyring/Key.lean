import Keyring.Curve.Ed25519
import Keyring.Curve.P256
import Keyring.Error

set_option autoImplicit false

namespace Keyring

inductive PublicKey where
  | rsa (key : Rsa.PublicKey)
  | ecdsa (key : P256.PublicKey)
  | ed25519 (key : Ed25519.PublicKey)
  deriving DecidableEq

inductive PrivateKey where
  | rsa (key : Rsa.PrivateKey)
  | ecdsa (key : P256.PrivateKey)
  | ed25519 (key : Ed25519.PrivateKey)
  deriving DecidableEq

def PublicKey.alg : PublicKey → Alg
  | .rsa _ => .rs256
  | .ecdsa _ => .es256
  | .ed25519 _ => .edDsa

namespace PrivateKey

def alg : PrivateKey → Alg
  | .rsa _ => .rs256
  | .ecdsa _ => .es256
  | .ed25519 _ => .edDsa

def publicKey : PrivateKey → PublicKey
  | .rsa key => .rsa key.publicKey
  | .ecdsa key => .ecdsa key.publicKey
  | .ed25519 key => .ed25519 key.publicKey

/-- A private key as it is written to logs: by its kind only. -/
def logText : PrivateKey → String
  | .rsa _ => "PrivateKey::Rsa([REDACTED])"
  | .ecdsa _ => "PrivateKey::Ecdsa([REDACTED])"
  | .ed25519 _ => "PrivateKey::Ed25519([REDACTED])"

/-- An ECDSA signature as the signer gives it out, in DER. -/
def derOfSignature (sig : P256.Signature) : Except EcdsaSignature.Fault Bytes :=
  EcdsaSignature.derOfRaw (Bytes.ofNat 32 sig.r ++ Bytes.ofNat 32 sig.s)

def rsaAnswer : Except Rsa.Fault Bytes → Except KeyError Bytes
  | .error fault => .error (.internal (.rsaSigning fault))
  | .ok signature => .ok signature

def ecdsaAnswer : Option P256.Signature → Except KeyError Bytes
  | none => .error (.internal .ecdsaSigning)
  | some signature =>
    match (derOfSignature signature).bind EcdsaSignature.rawOfDer with
    | .error fault => .error (.ofSignatureFault fault)
    | .ok raw => .ok raw

def sign (key : PrivateKey) (message : Bytes) : Except KeyError Bytes :=
  match key with
  | .rsa key => rsaAnswer (Rsa.sign key message)
  | .ecdsa key => ecdsaAnswer (P256.sign? key message)
  | .ed25519 key => .ok (Ed25519.sign key message)

theorem alg_publicKey (key : PrivateKey) : key.publicKey.alg = key.alg := by cases key <;> rfl

end PrivateKey

/-- A raw signature, whose halves may have any one length and zeros in front, with 32 bytes for each
number; nothing when a number needs more. -/
def normalized? (raw : Bytes) : Option Bytes :=
  let r := Bytes.magnitude (raw.take (raw.length / 2))
  let s := Bytes.magnitude (raw.drop (raw.length / 2))
  if r.length ≤ 32 ∧ s.length ≤ 32 then
    some ((List.replicate (32 - r.length) 0 ++ r) ++ (List.replicate (32 - s.length) 0 ++ s))
  else none

def signatureOfRaw? (raw : Bytes) : Option P256.Signature :=
  (normalized? raw).bind fun raw =>
    P256.Signature.ofNumbers? (Bytes.toNat (raw.take 32)) (Bytes.toNat (raw.drop 32))

/-- Checks that a signature is one of the message under the key, which must be of the algorithm's
kind. -/
def verify (alg : Alg) (key : PublicKey) (message signature : Bytes) : Except KeyError Unit :=
  let answer (isValid : Bool) : Except KeyError Unit := if isValid then .ok () else .error .invalidSignature
  match alg, key with
  | .rs256, .rsa key => answer (Rsa.verifies key message signature)
  | .es256, .ecdsa key =>
    if signature.length % 2 ≠ 0 then .error (.decode (.oddSignature signature.length))
    else answer ((signatureOfRaw? signature).any (fun sig => P256.verifies key message sig))
  | .edDsa, .ed25519 key => answer (Ed25519.verifies key message signature)
  | expected, _ => .error (.wrongKeyType expected)

end Keyring
