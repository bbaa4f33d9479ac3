import Keyring.Der

/-!
The two written forms of an ECDSA signature: raw, which is both numbers in 32 bytes each, and DER,
which is a sequence of two integers. The reader of DER is strict: definite minimal lengths of at most
two bytes, minimal integers that are not negative, and nothing left over.
-/
set_option autoImplicit false

namespace Keyring.EcdsaSignature

inductive Fault where
  | truncated
  | nonMinimalLength
  | indefiniteLength
  | lengthTooLarge
  | unexpectedTag (actual expected : UInt8)
  | trailing (count : Nat)
  | integer (fault : Der.IntegerFault)
  | integerTooLarge (length most : Nat)
  | rawLength (length : Nat)
  | encodedLength (length : Nat)
  deriving DecidableEq, Repr

def hexByte (b : UInt8) : String :=
  String.ofList [Nat.digitChar (b.toNat / 16), Nat.digitChar (b.toNat % 16)]

def Fault.message : Fault → String
  | .truncated => "truncated DER"
  | .nonMinimalLength => "non-minimal DER length"
  | .indefiniteLength => "indefinite DER length"
  | .lengthTooLarge => "DER length too large"
  | .unexpectedTag actual expected =>
    "unexpected DER tag 0x" ++ hexByte actual ++ ", expected 0x" ++ hexByte expected
  | .trailing count => toString count ++ " trailing bytes after DER element"
  | .integer .empty => "empty DER integer"
  | .integer .negative => "negative DER integer"
  | .integer .nonMinimal => "non-minimal DER integer"
  | .integerTooLarge length most =>
    "Integer too large: " ++ toString length ++ " bytes exceeds " ++ toString most
  | .rawLength length =>
    "raw ECDSA signature must be non-empty and even-length, got " ++ toString length ++ " bytes"
  | .encodedLength length =>
    "DER length " ++ toString length ++ " exceeds the 65535-byte encoder limit"

def coordinateLength : Nat := 32

def takeBytes (n : Nat) (bs : Bytes) : Except Fault (Bytes × Bytes) :=
  if bs.length < n then .error .truncated else .ok (bs.take n, bs.drop n)

/-- Reads a length: below 128 in one byte, otherwise in the fewest bytes, of which one or two are
announced. -/
def readLength : Bytes → Except Fault (Nat × Bytes)
  | [] => .error .truncated
  | first :: rest =>
    if first < 0x80 then .ok (first.toNat, rest)
    else if first = 0x81 then
      match rest with
      | [] => .error .truncated
      | n :: rest => if n < 0x80 then .error .nonMinimalLength else .ok (n.toNat, rest)
    else if first = 0x82 then
      match rest with
      | high :: low :: rest =>
        if high = 0 then .error .nonMinimalLength else .ok (256 * high.toNat + low.toNat, rest)
      | _ => .error .truncated
    else if first = 0x80 then .error .indefiniteLength
    else .error .lengthTooLarge

def readElement (tag : Der.Tag) : Bytes → Except Fault (Bytes × Bytes)
  | [] => .error .truncated
  | actual :: rest =>
    if actual ≠ tag then .error (.unexpectedTag actual tag)
    else do
      let (length, rest) ← readLength rest
      takeBytes length rest

def finish (rest : Bytes) : Except Fault Unit :=
  if rest = [] then .ok () else .error (.trailing rest.length)

def readInteger (bs : Bytes) : Except Fault (Bytes × Bytes) := do
  let (content, rest) ← readElement .integer bs
  match Der.magnitude content with
  | .error fault => .error (.integer fault)
  | .ok magnitude => .ok (magnitude, rest)

/-- A magnitude filled up with zeros in front. -/
def coordinate (magnitude : Bytes) : Except Fault Bytes :=
  if coordinateLength < magnitude.length then
    .error (.integerTooLarge magnitude.length coordinateLength)
  else .ok (List.replicate (coordinateLength - magnitude.length) 0 ++ magnitude)

def rawOfDer (der : Bytes) : Except Fault Bytes := do
  let (body, rest) ← readElement .sequence der
  finish rest
  let (r, body) ← readInteger body
  let (s, body) ← readInteger body
  finish body
  let r ← coordinate r
  let s ← coordinate s
  return r ++ s

def lengthBytes (n : Nat) : Except Fault Bytes :=
  if n < 0x80 then .ok [UInt8.ofNat n]
  else if n < 0x100 then .ok [0x81, UInt8.ofNat n]
  else if n < 0x10000 then .ok [0x82, UInt8.ofNat (n / 256), UInt8.ofNat (n % 256)]
  else .error (.encodedLength n)

def writeElement (tag : Der.Tag) (content : Bytes) : Except Fault Bytes := do
  let length ← lengthBytes content.length
  return tag :: (length ++ content)

/-- The DER form of a raw signature, whose two halves may have any one length. -/
def derOfRaw (raw : Bytes) : Except Fault Bytes :=
  if raw = [] ∨ raw.length % 2 ≠ 0 then .error (.rawLength raw.length)
  else do
    let r ← writeElement .integer (Der.integerContent (raw.take (raw.length / 2)))
    let s ← writeElement .integer (Der.integerContent (raw.drop (raw.length / 2)))
    writeElement .sequence (r ++ s)

end Keyring.EcdsaSignature
