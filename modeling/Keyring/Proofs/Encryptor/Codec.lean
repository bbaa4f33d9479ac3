import Keyring.Encryptor
import Keyring.Proofs.Base64.Codec
import Keyring.Proofs.Text.Blank

set_option autoImplicit false

namespace Keyring

namespace Gcm

variable {cipher : Nat → Nat} {nonce text sealed : Bytes}

/-- What opens is closed again to what it was: the tag is told by the rest, and so is the text. -/
theorem eq_close_of_open? (h : open? cipher nonce sealed = some text) : sealed = close cipher nonce text := by
  unfold open? at h
  simp only at h
  split at h
  · cases h
  split at h
  · rename_i htag
    have htext : mask cipher nonce 2 (sealed.take (sealed.length - 16)) = text := Option.some.inj h
    rw [close, ← htext]
    simp only [mask_mask, ← htag, List.take_append_drop]
  · cases h

theorem eq_tag_of_close {body t : Bytes} (h : close cipher nonce text = body ++ t) (ht : t.length = 16) :
    t = tag cipher nonce body := by
  obtain ⟨rfl, rfl⟩ := List.append_inj' h (by rw [tag_length, ht])
  rfl

end Gcm

theorem Base64.not_blank_of_mem_text {bs : Bytes} {c : Char} (h : c ∈ (text standard bs).toList) :
    Text.isBlank c = false := by
  rw [text, String.toList_ofList, List.mem_map] at h
  obtain ⟨b, hb, rfl⟩ := h
  rcases mem_encode hb with ⟨-, rfl⟩ | ⟨n, hn, rfl⟩
  · decide
  · have hsymbols : ∀ n < 64, Text.isBlank (Char.ofNat (standard.symbol n).toNat) = false := by decide
    exact hsymbols n hn

namespace MasterKey

/-- A text that gives a master key: its base64, with white space or nothing around it. -/
def IsText (bs : Bytes) (text : String) : Prop := Text.Surrounded (Base64.text Base64.standard bs).toList text.toList

variable {bs : Bytes} {k : MasterKey} {text : String}

theorem ofBytes_bytes (k : MasterKey) : ofBytes k.bytes = .ok k := dif_pos k.length_bytes

theorem ofBytes_eq_ok_iff : ofBytes bs = .ok k ↔ k.bytes = bs := by
  constructor
  · intro h
    unfold ofBytes at h
    split at h
    · cases h
      rfl
    · cases h
  · rintro rfl
    exact ofBytes_bytes k

theorem ofBytes_of_length_ne (h : bs.length ≠ 32) : ofBytes bs = .error (.configuration (.masterKeyLength bs.length)) :=
  dif_neg h

theorem decode_trim_eq_ok_iff : Base64.decode Base64.standard (Utf8.encode (Text.trim text.toList)) = .ok bs ↔
    IsText bs text := by
  rw [Base64.decode_text_eq_ok_iff Base64.standard_lawful]
  exact Text.trim_eq_iff fun _ => Base64.not_blank_of_mem_text

theorem ofBase64_eq_ok_iff : ofBase64 text = .ok k ↔ IsText k.bytes text := by
  unfold ofBase64
  rw [← decode_trim_eq_ok_iff]
  cases Base64.decode Base64.standard (Utf8.encode (Text.trim text.toList)) with
  | error fault => simp
  | ok bs => simp only [ofBytes_eq_ok_iff, Except.ok.injEq, eq_comm (a := bs)]

theorem exists_ofBytes_iff : (∃ k, ofBytes bs = .ok k) ↔ bs.length = 32 := by
  simp only [ofBytes_eq_ok_iff]
  constructor
  · rintro ⟨k, rfl⟩
    exact k.length_bytes
  · exact fun h => ⟨⟨bs, h⟩, rfl⟩

theorem exists_ofBase64_iff : (∃ k, ofBase64 text = .ok k) ↔ ∃ bs : Bytes, bs.length = 32 ∧ IsText bs text := by
  simp only [ofBase64_eq_ok_iff]
  constructor
  · rintro ⟨k, h⟩
    exact ⟨k.bytes, k.length_bytes, h⟩
  · rintro ⟨bs, hbs, h⟩
    exact ⟨⟨bs, hbs⟩, h⟩

end MasterKey

namespace Encryptor

variable {k : MasterKey} {sealed : EncryptedKey} {plaintext : Bytes}

/-- What is decrypted is what has been encrypted under the nonce. -/
theorem aesGcm_decrypt_eq_ok_iff : (aesGcm k).decrypt sealed = .ok plaintext ↔
    sealed.nonce.length = nonceLength ∧ (aesGcm k).encrypt sealed.nonce plaintext = .ok sealed := by
  constructor
  · intro h
    unfold aesGcm at h
    simp only at h
    split at h
    · cases h
    rename_i hn
    split at h
    · cases h
    · rename_i hopen
      cases h
      exact ⟨not_not.mp hn, congrArg Except.ok (congrArg (EncryptedKey.mk sealed.nonce) (Gcm.eq_close_of_open? hopen).symm)⟩
  · rintro ⟨hn, hsealed⟩
    rw [← Except.ok.inj hsealed]
    exact aesGcm_decrypt_close k sealed.nonce plaintext hn

theorem aesGcm_decrypt_eq_error (h : ∀ plaintext, (aesGcm k).decrypt sealed ≠ .ok plaintext) :
    (aesGcm k).decrypt sealed = .error .decryption := by
  revert h
  unfold aesGcm
  simp only
  split
  · exact fun _ => rfl
  cases Gcm.open? k.cipher sealed.nonce sealed.ciphertext with
  | none => exact fun _ => rfl
  | some text => exact fun h => absurd rfl (h text)

theorem aesGcm_encrypt_length {nonce : Bytes} (h : (aesGcm k).encrypt nonce plaintext = .ok sealed) :
    sealed.nonce = nonce ∧ sealed.ciphertext.length = plaintext.length + 16 := by
  obtain rfl := Except.ok.inj h
  exact ⟨rfl, Gcm.close_length k.cipher nonce plaintext⟩

/-- What an encryptor under a master key does with texts of any length, and with what it has not sealed. -/
structure Seals (k : MasterKey) : Prop where
  opens : ∀ nonce plaintext, nonce.length = nonceLength → ∃ sealed, (aesGcm k).encrypt nonce plaintext = .ok sealed ∧
    sealed.nonce = nonce ∧ sealed.ciphertext.length = plaintext.length + 16 ∧
    (aesGcm k).decrypt sealed = .ok plaintext ∧
    ∀ text, MasterKey.IsText k.bytes text → ∃ k', MasterKey.ofBase64 text = .ok k' ∧
      (aesGcm k').decrypt sealed = .ok plaintext
  only : ∀ sealed plaintext, (aesGcm k).decrypt sealed = .ok plaintext →
    sealed.nonce.length = nonceLength ∧ (aesGcm k).encrypt sealed.nonce plaintext = .ok sealed
  nonce : ∀ sealed, sealed.nonce.length ≠ nonceLength → (aesGcm k).decrypt sealed = .error .decryption
  short : ∀ sealed, sealed.ciphertext.length < 16 → (aesGcm k).decrypt sealed = .error .decryption
  tag : ∀ nonce plaintext body tag other, (aesGcm k).encrypt nonce plaintext = .ok ⟨nonce, body ++ tag⟩ →
    tag.length = 16 → other.length = 16 → other ≠ tag →
      (aesGcm k).decrypt ⟨nonce, body ++ other⟩ = .error .decryption

theorem seals (k : MasterKey) : Seals k where
  opens := by
    intro nonce plaintext hn
    obtain ⟨sealed, hsealed⟩ : ∃ sealed, (aesGcm k).encrypt nonce plaintext = .ok sealed := ⟨_, rfl⟩
    obtain ⟨rfl, hlength⟩ := aesGcm_encrypt_length hsealed
    have hopen := aesGcm_decrypt_eq_ok_iff.mpr ⟨hn, hsealed⟩
    exact ⟨sealed, hsealed, rfl, hlength, hopen, fun text htext => ⟨k, MasterKey.ofBase64_eq_ok_iff.mpr htext, hopen⟩⟩
  only := fun _ _ => aesGcm_decrypt_eq_ok_iff.mp
  nonce := fun sealed hn => aesGcm_decrypt_eq_error fun _ hopen => hn (aesGcm_decrypt_eq_ok_iff.mp hopen).1
  short := by
    intro sealed hshort
    refine aesGcm_decrypt_eq_error fun plaintext hopen => ?_
    have hlength := (aesGcm_encrypt_length (aesGcm_decrypt_eq_ok_iff.mp hopen).2).2
    omega
  tag := by
    intro nonce plaintext body tag other hsealed htag hother hne
    refine aesGcm_decrypt_eq_error fun plaintext' hopen => ?_
    have hsealed' := (aesGcm_decrypt_eq_ok_iff.mp hopen).2
    have hclose := congrArg EncryptedKey.ciphertext (Except.ok.inj hsealed)
    have hclose' := congrArg EncryptedKey.ciphertext (Except.ok.inj hsealed')
    exact hne ((Gcm.eq_tag_of_close hclose' hother).trans (Gcm.eq_tag_of_close hclose htag).symm)

/-- A master key is made of 32 bytes and of nothing else, also where it is given in base64 with white space around.
Under it, and under the same key given in base64, a text of any length opens to what it was and is longer by one tag
when it is sealed. What does not open, such as another nonce length, too few bytes or another tag, is refused. -/
theorem master_keys_open_what_they_seal :
    (∀ bs : Bytes, (∃ k, MasterKey.ofBytes bs = .ok k) ↔ bs.length = 32) ∧
    (∀ bs : Bytes, bs.length ≠ 32 → MasterKey.ofBytes bs = .error (.configuration (.masterKeyLength bs.length))) ∧
    (∀ text, (∃ k, MasterKey.ofBase64 text = .ok k) ↔ ∃ bs : Bytes, bs.length = 32 ∧ MasterKey.IsText bs text) ∧
    ∀ bs : Bytes, bs.length = 32 → ∃ k, MasterKey.ofBytes bs = .ok k ∧ k.bytes = bs ∧ Seals k := by
  refine ⟨fun _ => MasterKey.exists_ofBytes_iff, fun _ => MasterKey.ofBytes_of_length_ne,
    fun _ => MasterKey.exists_ofBase64_iff, fun bs hbs => ?_⟩
  obtain ⟨k, hk⟩ := MasterKey.exists_ofBytes_iff.mpr hbs
  exact ⟨k, hk, MasterKey.ofBytes_eq_ok_iff.mp hk, seals k⟩

/-- The empty text, sealed under a key and a nonce of zeros, and opened with the key in base64. -/
theorem zero_key_opens_empty_text :
    let nonce : Bytes := List.replicate 12 0
    let tag : Bytes := [0x53, 0x0f, 0x8a, 0xfb, 0xc7, 0x45, 0x36, 0xb9, 0xa9, 0x63, 0xb4, 0xf1, 0xc4, 0xcb, 0x73, 0x8b]
    ∃ k, MasterKey.ofBytes (List.replicate 32 0) = .ok k ∧ (aesGcm k).encrypt nonce [] = .ok ⟨nonce, tag⟩ ∧
      (∃ k', MasterKey.ofBase64 "\tAAAAAAAAAAAAAAAAAAAAAAAAAAAAAAAAAAAAAAAAAAA=\n" = .ok k' ∧
        (aesGcm k').decrypt ⟨nonce, tag⟩ = .ok []) ∧
      (aesGcm k).decrypt ⟨0 :: nonce, tag⟩ = .error .decryption ∧
      (aesGcm k).decrypt ⟨nonce, tag.tail⟩ = .error .decryption ∧
      (aesGcm k).decrypt ⟨nonce, tag.reverse⟩ = .error .decryption := by
  intro nonce tag
  obtain ⟨k, hk, hbytes, hseals⟩ := master_keys_open_what_they_seal.2.2.2 (List.replicate 32 0) rfl
  obtain ⟨sealed, hsealed, -, -, -, htexts⟩ := hseals.opens nonce [] rfl
  have hcode : (aesGcm k).encrypt nonce [] = .ok ⟨nonce, tag⟩ := by
    have hclose : Gcm.close (Aes.encrypt (Aes.roundKeys (List.replicate 32 0))) nonce [] = tag := by decide +kernel
    rw [← hbytes] at hclose
    exact congrArg (fun ciphertext => Except.ok (EncryptedKey.mk nonce ciphertext)) hclose
  obtain rfl := Except.ok.inj (hsealed.symm.trans hcode)
  have htext : MasterKey.IsText k.bytes "\tAAAAAAAAAAAAAAAAAAAAAAAAAAAAAAAAAAAAAAAAAAA=\n" :=
    ⟨['\t'], ['\n'], List.forall_mem_singleton.mpr (by decide), List.forall_mem_singleton.mpr (by decide),
      by rw [hbytes]; decide +kernel⟩
  exact ⟨k, hk, hcode, htexts _ htext, hseals.nonce _ (by decide), hseals.short _ (by decide),
    hseals.tag nonce [] [] tag tag.reverse hcode rfl rfl (by decide)⟩

end Encryptor
end Keyring
