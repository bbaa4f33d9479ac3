import Keyring.Decimal
import Keyring.Der

set_option autoImplicit false

namespace Keyring

structure Oid where
  content : Bytes
  deriving DecidableEq, Repr

namespace Oid

/-- Reads the arcs that follow, seven bits a byte, the last byte of an arc having its top bit clear.
`used` bytes of the present arc have been read, and `value` is what they write in 32 bits. An arc has
at most five bytes, the fifth below sixteen. -/
def arcsFrom? : (used value : Nat) → Bytes → Option (List Nat)
  | 0, _, [] => some []
  | _ + 1, _, [] => none
  | used, value, b :: rest =>
    if 4 ≤ used ∧ 0x10 ≤ b then none
    else
      let value := (value * 128 + b.toNat % 128) % 0x100000000
      if b < 0x80 then (arcsFrom? 0 0 rest).map (value :: ·) else arcsFrom? (used + 1) value rest

def arcs? (o : Oid) : Option (List Nat) :=
  match o.content with
  | [] => none
  | first :: rest =>
    if first.toNat < 120 then (arcsFrom? 0 0 rest).map (fun arcs => first.toNat / 40 :: first.toNat % 40 :: arcs)
    else none

/-- The identifier with a content: three to 39 bytes that are whole arcs. -/
def ofContent? (content : Bytes) : Option Oid :=
  if 3 ≤ content.length ∧ content.length ≤ 39 ∧ (arcs? ⟨content⟩).isSome then some ⟨content⟩ else none

def text (o : Oid) : String :=
  String.ofList (List.intercalate ['.'] ((o.arcs?.getD []).map Decimal.text))

def read? (bs : Bytes) : Option (Oid × Bytes) := do
  let (content, rest) ← Der.expect? .objectIdentifier bs
  return (← ofContent? content, rest)

def write (o : Oid) : Bytes := Der.write .objectIdentifier o.content

def rsaEncryption : Oid := ⟨[0x2a, 0x86, 0x48, 0x86, 0xf7, 0x0d, 0x01, 0x01, 0x01]⟩
def ecPublicKey : Oid := ⟨[0x2a, 0x86, 0x48, 0xce, 0x3d, 0x02, 0x01]⟩
def prime256v1 : Oid := ⟨[0x2a, 0x86, 0x48, 0xce, 0x3d, 0x03, 0x01, 0x07]⟩
def ed25519 : Oid := ⟨[0x2b, 0x65, 0x70]⟩

end Oid
end Keyring
