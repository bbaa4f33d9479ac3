import Keyring.Snapshot

set_option autoImplicit false

namespace Keyring

inductive KeyType where
  | rsa
  | ec
  | okp
  deriving DecidableEq, Repr

def KeyType.table : List (String × KeyType) := [("RSA", .rsa), ("EC", .ec), ("OKP", .okp)]

def KeyType.name : KeyType → String
  | .rsa => "RSA"
  | .ec => "EC"
  | .okp => "OKP"

inductive CurveName where
  | p256
  | ed25519
  deriving DecidableEq, Repr

def CurveName.table : List (String × CurveName) := [("P-256", .p256), ("Ed25519", .ed25519)]

def CurveName.name : CurveName → String
  | .p256 => "P-256"
  | .ed25519 => "Ed25519"

structure Jwk where
  keyType : KeyType
  kid : String
  alg : Alg
  use : String
  curve : Option CurveName := none
  n : Option String := none
  e : Option String := none
  x : Option String := none
  y : Option String := none
  deriving DecidableEq, Repr

namespace Jwk

def ofPublicKey? (kid : String) (alg : Alg) (key : PublicKey) : Option Jwk :=
  let encode (bs : Bytes) : Option String := some (Base64.text Base64.url bs)
  if key.alg ≠ alg then none
  else match key with
    | .rsa key =>
      some { keyType := .rsa, kid, alg, use := "sig",
             n := encode (Bytes.minimal key.modulus), e := encode (Bytes.minimal key.exponent) }
    | .ecdsa key =>
      some { keyType := .ec, kid, alg, use := "sig", curve := some .p256,
             x := encode (Bytes.ofNat 32 key.point.x), y := encode (Bytes.ofNat 32 key.point.y) }
    | .ed25519 key =>
      some { keyType := .okp, kid, alg, use := "sig", curve := some .ed25519, x := encode key.bytes }

def optionalMember (name : String) (s : Option String) : List (String × Json.Value) :=
  match s with
  | none => []
  | some s => [(name, .string s)]

def toJson (k : Jwk) : Json.Value :=
  .object (
    [("kty", .string k.keyType.name), ("kid", .string k.kid), ("alg", k.alg.toJson), ("use", .string k.use)] ++
    optionalMember "crv" (k.curve.map CurveName.name) ++ optionalMember "n" k.n ++
    optionalMember "e" k.e ++ optionalMember "x" k.x ++ optionalMember "y" k.y)

structure Draft where
  keyType : Option KeyType := none
  kid : Option String := none
  alg : Option Alg := none
  use : Option String := none
  curve : Option (Option CurveName) := none
  n : Option (Option String) := none
  e : Option (Option String) := none
  x : Option (Option String) := none
  y : Option (Option String) := none

def optionalText : Json.Reader (Option String) := Json.Reader.nullable Json.Reader.string

def shape : Json.Shape Draft where
  name := "Jwk"
  isStrict := false
  members := [
    ⟨"kty", .required, fun d => d.keyType.isSome,
      (fun v d => { d with keyType := some v }) <$> Json.Reader.choice KeyType.table⟩,
    ⟨"kid", .required, fun d => d.kid.isSome, (fun v d => { d with kid := some v }) <$> Json.Reader.string⟩,
    ⟨"alg", .required, fun d => d.alg.isSome, (fun v d => { d with alg := some v }) <$> Alg.read⟩,
    ⟨"use", .required, fun d => d.use.isSome, (fun v d => { d with use := some v }) <$> Json.Reader.string⟩,
    ⟨"crv", .defaulted, fun d => d.curve.isSome,
      (fun v d => { d with curve := some v }) <$> Json.Reader.nullable (Json.Reader.choice CurveName.table)⟩,
    ⟨"n", .defaulted, fun d => d.n.isSome, (fun v d => { d with n := some v }) <$> optionalText⟩,
    ⟨"e", .defaulted, fun d => d.e.isSome, (fun v d => { d with e := some v }) <$> optionalText⟩,
    ⟨"x", .defaulted, fun d => d.x.isSome, (fun v d => { d with x := some v }) <$> optionalText⟩,
    ⟨"y", .defaulted, fun d => d.y.isSome, (fun v d => { d with y := some v }) <$> optionalText⟩]

def read : Json.Reader Jwk := do
  let d ← shape.read {}
  match d.keyType, d.kid, d.alg, d.use with
  | some keyType, some kid, some alg, some use =>
    pure ⟨keyType, kid, alg, use, d.curve.join, d.n.join, d.e.join, d.x.join, d.y.join⟩
  | _, _, _, _ => Json.Reader.fail .malformed

end Jwk

structure JwkSet where
  keys : List Jwk
  deriving DecidableEq, Repr

namespace JwkSet

def indexOf? (s : JwkSet) (kid : String) : Option Nat := s.keys.findIdx? (fun k => k.kid = kid)

def toJson (s : JwkSet) : Json.Value := .object [("keys", .array (s.keys.map Jwk.toJson))]

def text (s : JwkSet) : String := s.toJson.toString

structure Draft where
  keys : Option (List Jwk) := none

def shape : Json.Shape Draft where
  name := "JwkSet"
  isStrict := false
  members := [
    ⟨"keys", .required, fun d => d.keys.isSome,
      (fun v d => { d with keys := some v }) <$> Json.Reader.list Jwk.read⟩]

def read : Json.Reader JwkSet := do
  let d ← shape.read {}
  match d.keys with
  | some keys => pure ⟨keys⟩
  | none => Json.Reader.fail .malformed

def ofJson (text : String) : Except Json.Fault JwkSet := read.run (Utf8.ofString text)

/-- The set of the public keys, the one created first in front. A key whose kind is not that of its
record is left out and reported. -/
def ofKeys (keys : List CachedKey) : JwkSet × List Event :=
  let sorted := keys.mergeSort (fun a b => !decide (b.record.Precedes a.record))
  let jwk? (k : CachedKey) : Option Jwk := Jwk.ofPublicKey? k.kid k.alg k.publicKey
  (⟨sorted.filterMap jwk?⟩,
    (sorted.filter (fun k => (jwk? k).isNone)).map (fun k => .keyKindSkipped k.kid k.alg))

end JwkSet

def Snapshot.jwks (s : Snapshot) : JwkSet × List Event := JwkSet.ofKeys s.keys

end Keyring
