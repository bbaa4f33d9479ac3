import Keyring.Alg
import Keyring.Time.Text

set_option autoImplicit false

namespace Keyring

structure EncryptedKey where
  nonce : Bytes
  ciphertext : Bytes
  deriving DecidableEq, Repr

structure Record where
  kid : String
  alg : Alg
  isActive : Bool
  createdAt : Time
  expiresAt : Option Time
  encryptedKey : EncryptedKey
  deriving DecidableEq, Repr

namespace Record

def isExpiredAt (r : Record) (now : Time) : Bool :=
  match r.expiresAt with
  | none => false
  | some t => t < now

def deactivated (r : Record) : Record := { r with isActive := false }

/-- Records are ordered by their times of creation, and by their ids where those are the same. -/
def Precedes (a b : Record) : Prop :=
  a.createdAt < b.createdAt ∨ (a.createdAt = b.createdAt ∧ a.kid < b.kid)

instance (a b : Record) : Decidable (a.Precedes b) := inferInstanceAs (Decidable (_ ∨ _))

def later (a b : Record) : Record := if b.Precedes a then a else b

/-- The last of the active records of an algorithm. -/
def newestActive? (alg : Alg) (records : List Record) : Option Record :=
  (records.filter (fun r => r.alg = alg && r.isActive)).foldl
    (fun best r => match best with
      | none => some r
      | some b => some (b.later r)) none

end Record

namespace Json

def ofBytes (bs : Bytes) : Value := .string (Base64.text Base64.url bs)

def Reader.bytes : Reader Bytes := do
  let s ← string
  match Base64.decode Base64.url (Utf8.ofString s) with
  | .error fault => fail (.base64 fault)
  | .ok bs => pure bs

def ofTime (t : Time) : Value := .string (String.ofList t.text)

def Reader.time : Reader Time := do
  let s ← stringFor "an RFC 3339 formatted date and time string"
  match Time.ofText? s.toList with
  | none => fail .malformed
  | some t => pure t

end Json

structure EncryptedKey.Draft where
  nonce : Option Bytes := none
  ciphertext : Option Bytes := none

namespace EncryptedKey

def shape : Json.Shape Draft where
  name := "EncryptedKey"
  isStrict := true
  members := [
    ⟨"nonce", .required, fun d => d.nonce.isSome, (fun x d => { d with nonce := some x }) <$> Json.Reader.bytes⟩,
    ⟨"ciphertext", .required, fun d => d.ciphertext.isSome,
      (fun x d => { d with ciphertext := some x }) <$> Json.Reader.bytes⟩]

def read : Json.Reader EncryptedKey := do
  let d ← shape.read {}
  match d.nonce, d.ciphertext with
  | some nonce, some ciphertext => pure ⟨nonce, ciphertext⟩
  | _, _ => Json.Reader.fail .malformed

def toJson (k : EncryptedKey) : Json.Value :=
  .object [("nonce", Json.ofBytes k.nonce), ("ciphertext", Json.ofBytes k.ciphertext)]

end EncryptedKey

structure Record.Draft where
  kid : Option String := none
  alg : Option Alg := none
  isActive : Option Bool := none
  createdAt : Option Time := none
  expiresAt : Option (Option Time) := none
  encryptedKey : Option EncryptedKey := none

namespace Record

def shape : Json.Shape Draft where
  name := "KeyRecord"
  isStrict := true
  members := [
    ⟨"kid", .required, fun d => d.kid.isSome, (fun x d => { d with kid := some x }) <$> Json.Reader.string⟩,
    ⟨"alg", .required, fun d => d.alg.isSome, (fun x d => { d with alg := some x }) <$> Alg.read⟩,
    ⟨"is_active", .required, fun d => d.isActive.isSome,
      (fun x d => { d with isActive := some x }) <$> Json.Reader.boolean⟩,
    ⟨"created_at", .required, fun d => d.createdAt.isSome,
      (fun x d => { d with createdAt := some x }) <$> Json.Reader.time⟩,
    ⟨"expires_at", .nullable, fun d => d.expiresAt.isSome,
      (fun x d => { d with expiresAt := some x }) <$> Json.Reader.nullable Json.Reader.time⟩,
    ⟨"encrypted_key", .required, fun d => d.encryptedKey.isSome,
      (fun x d => { d with encryptedKey := some x }) <$> EncryptedKey.read⟩]

def read : Json.Reader Record := do
  let d ← shape.read {}
  match d.kid, d.alg, d.isActive, d.createdAt, d.encryptedKey with
  | some kid, some alg, some isActive, some createdAt, some encryptedKey =>
    pure ⟨kid, alg, isActive, createdAt, d.expiresAt.join, encryptedKey⟩
  | _, _, _, _, _ => Json.Reader.fail .malformed

def ofJson (text : String) : Except Json.Fault Record := read.run (Utf8.ofString text)

def toJson (r : Record) : Json.Value :=
  .object [("kid", .string r.kid), ("alg", r.alg.toJson), ("is_active", .boolean r.isActive),
    ("created_at", Json.ofTime r.createdAt),
    ("expires_at", (r.expiresAt.map Json.ofTime).getD .null),
    ("encrypted_key", r.encryptedKey.toJson)]

@[simp] theorem deactivated_kid (r : Record) : r.deactivated.kid = r.kid := rfl
@[simp] theorem deactivated_alg (r : Record) : r.deactivated.alg = r.alg := rfl
@[simp] theorem deactivated_isActive (r : Record) : r.deactivated.isActive = false := rfl

end Record
end Keyring
