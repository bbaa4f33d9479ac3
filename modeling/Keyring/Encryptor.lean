import Keyring.Cipher.Aes
import Keyring.Cipher.Gcm
import Keyring.Error
import Keyring.Record
import Keyring.Text.Blank

set_option autoImplicit false

namespace Keyring

/-- Encrypts under a nonce, and decrypts. -/
structure Encryptor where
  encrypt : (nonce plaintext : Bytes) → Except KeyError EncryptedKey
  decrypt : EncryptedKey → Except KeyError Bytes

structure MasterKey where
  bytes : Bytes
  length_bytes : bytes.length = 32

namespace MasterKey

def ofBytes (bs : Bytes) : Except KeyError MasterKey :=
  if h : bs.length = 32 then .ok ⟨bs, h⟩ else .error (.configuration (.masterKeyLength bs.length))

def ofBase64 (text : String) : Except KeyError MasterKey :=
  match Base64.decode Base64.standard (Utf8.encode (Text.trim text.toList)) with
  | .error fault => .error (.configuration (.masterKeyText fault))
  | .ok bs => ofBytes bs

def cipher (k : MasterKey) : Nat → Nat := Aes.encrypt (Aes.roundKeys k.bytes)

end MasterKey

namespace Encryptor

def nonceLength : Nat := 12

def aesGcm (k : MasterKey) : Encryptor where
  encrypt nonce plaintext := .ok ⟨nonce, Gcm.close k.cipher nonce plaintext⟩
  decrypt sealed :=
    if sealed.nonce.length ≠ nonceLength then .error .decryption
    else match Gcm.open? k.cipher sealed.nonce sealed.ciphertext with
      | none => .error .decryption
      | some plaintext => .ok plaintext

def logText : String := "AesGcmEncryptor \x7b cipher: \"[REDACTED]\" \x7d"

def plain : Encryptor where
  encrypt _ plaintext := .ok ⟨[], plaintext⟩
  decrypt sealed := .ok sealed.ciphertext

/-- Leaves keys as they are, and fails in the directions that are blocked. -/
def blocked (encryption decryption : Bool) : Encryptor where
  encrypt nonce plaintext :=
    if encryption then .error (.encryption "injected encrypt failure") else plain.encrypt nonce plaintext
  decrypt sealed := if decryption then .error .decryption else plain.decrypt sealed

theorem aesGcm_decrypt_close (k : MasterKey) (nonce plaintext : Bytes) (h : nonce.length = nonceLength) :
    (aesGcm k).decrypt ⟨nonce, Gcm.close k.cipher nonce plaintext⟩ = .ok plaintext := by
  simp [aesGcm, h, Gcm.open?_close]

end Encryptor
end Keyring
