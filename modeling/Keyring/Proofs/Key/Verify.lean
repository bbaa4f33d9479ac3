import Keyring.Key
import Keyring.Proofs.EcdsaSignature.Codec

/-!
What a private key signs is accepted under its public key. For RSA the signer makes sure of it; of the
two curves it is taken for granted, and the ways between the written forms of a signature are added.
-/
set_option autoImplicit false

namespace Keyring

/-- On a curve, the native check of a signature accepts what the key signs the message with. -/
structure PrivateKey.AcceptsOwn (key : PrivateKey) (message : Bytes) : Prop where
  ecdsa : ∀ k, key = .ecdsa k → ∀ sig, P256.sign? k message = some sig →
    P256.verifies k.publicKey message sig = true
  ed25519 : ∀ k, key = .ed25519 k → Ed25519.verifies k.publicKey message (Ed25519.sign k message) = true

theorem PrivateKey.acceptsOwn_of_alg {key : PrivateKey} (h : key.alg = .rs256) (message : Bytes) :
    key.AcceptsOwn message where
  ecdsa := by
    rintro k rfl
    cases h
  ed25519 := by
    rintro k rfl
    cases h

theorem Rsa.verifies_sign {key : Rsa.PrivateKey} {message signature : Bytes}
    (h : Rsa.sign key message = .ok signature) : Rsa.verifies key.publicKey message signature = true := by
  unfold sign at h
  unfold verifies
  cases hn : padded? key.publicKey.size message with
  | none => simp [hn] at h
  | some n =>
    simp only [hn] at h ⊢
    split at h
    · rename_i hs
      cases h
      have hlt : key.power n < Nat.pow 256 key.publicKey.size :=
        Nat.lt_trans hs.1 (Bytes.lt_pow_width key.modulus)
      have hpower : Modular.power key.publicKey.modulus (key.power n) key.publicKey.exponent = n := hs.2
      have hbelow : key.power n < key.publicKey.modulus := hs.1
      rw [Bytes.toNat_ofNat, Nat.mod_eq_of_lt hlt, hpower]
      simp [hbelow]
    · cases h

/-- A half of a signature that fits is its magnitude filled up with zeros. -/
theorem replicate_append_magnitude_of_length {half : Bytes} (h : half.length = 32) :
    List.replicate (32 - (Bytes.magnitude half).length) 0 ++ Bytes.magnitude half = half :=
  h ▸ Bytes.replicate_append_magnitude half

theorem normalized?_of_length {r s : Bytes} (hr : r.length = 32) (hs : s.length = 32) :
    normalized? (r ++ s) = some (r ++ s) := by
  have hhalf : (r ++ s).length / 2 = r.length := by rw [List.length_append, hr, hs]
  have hrle := hr ▸ Bytes.magnitude_length_le r
  have hsle := hs ▸ Bytes.magnitude_length_le s
  unfold normalized?
  rw [hhalf, List.take_left, List.drop_left]
  simp only [hrle, hsle, and_self, if_true]
  rw [replicate_append_magnitude_of_length hr, replicate_append_magnitude_of_length hs]

theorem normalized?_ofNat (r s : Nat) :
    normalized? (Bytes.ofNat 32 r ++ Bytes.ofNat 32 s) = some (Bytes.ofNat 32 r ++ Bytes.ofNat 32 s) :=
  normalized?_of_length (Bytes.ofNat_length 32 r) (Bytes.ofNat_length 32 s)

theorem signatureOfRaw?_numbers (sig : P256.Signature) :
    signatureOfRaw? (Bytes.ofNat 32 sig.r ++ Bytes.ofNat 32 sig.s) = some sig := by
  have horder : P256.order < Nat.pow 256 32 := by decide
  have hr := sig.r_range
  have hs := sig.s_range
  have hvalue (n : Nat) (hn : n < P256.order) : Bytes.toNat (Bytes.ofNat 32 n) = n := by
    rw [Bytes.toNat_ofNat, Nat.mod_eq_of_lt (Nat.lt_trans hn horder)]
  rw [signatureOfRaw?, normalized?_ofNat, Option.bind_some, List.take_left' (Bytes.ofNat_length 32 _),
    List.drop_left' (Bytes.ofNat_length 32 _), hvalue _ hr.2, hvalue _ hs.2, P256.Signature.ofNumbers?,
    dif_pos hr, dif_pos hs]

theorem rawOfDer_derOfSignature (sig : P256.Signature) :
    (PrivateKey.derOfSignature sig).bind EcdsaSignature.rawOfDer =
      .ok (Bytes.ofNat 32 sig.r ++ Bytes.ofNat 32 sig.s) := by
  have hlen : (Bytes.ofNat 32 sig.r ++ Bytes.ofNat 32 sig.s).length = 2 * EcdsaSignature.coordinateLength := by
    simp [EcdsaSignature.coordinateLength]
  obtain ⟨der, hder⟩ := EcdsaSignature.derOfRaw_of_length hlen
  rw [PrivateKey.derOfSignature, hder]
  exact EcdsaSignature.rawOfDer_eq_ok_iff.mpr ⟨hlen, hder⟩

theorem verify_rsa (key : Rsa.PublicKey) (message signature : Bytes) :
    verify .rs256 (.rsa key) message signature =
      if Rsa.verifies key message signature then .ok () else .error .invalidSignature := rfl

theorem verify_ed25519 (key : Ed25519.PublicKey) (message signature : Bytes) :
    verify .edDsa (.ed25519 key) message signature =
      if Ed25519.verifies key message signature then .ok () else .error .invalidSignature := rfl

theorem verify_ecdsa (key : P256.PublicKey) (message : Bytes) (sig : P256.Signature) :
    verify .es256 (.ecdsa key) message (Bytes.ofNat 32 sig.r ++ Bytes.ofNat 32 sig.s) =
      if P256.verifies key message sig then .ok () else .error .invalidSignature := by
  have hlen : ¬ (Bytes.ofNat 32 sig.r ++ Bytes.ofNat 32 sig.s).length % 2 ≠ 0 := by simp
  unfold verify
  simp only [hlen, if_false, signatureOfRaw?_numbers, Option.any_some]

theorem PrivateKey.rsaAnswer_eq_ok {answer : Except Rsa.Fault Bytes} {signature : Bytes}
    (h : rsaAnswer answer = .ok signature) : answer = .ok signature := by
  cases answer with
  | error fault => cases h
  | ok s => rw [rsaAnswer] at h; rw [Except.ok.inj h]

theorem PrivateKey.ecdsaAnswer_eq_ok {answer : Option P256.Signature} {signature : Bytes}
    (h : ecdsaAnswer answer = .ok signature) :
    ∃ sig, answer = some sig ∧ signature = Bytes.ofNat 32 sig.r ++ Bytes.ofNat 32 sig.s := by
  cases answer with
  | none => cases h
  | some sig =>
    rw [ecdsaAnswer, rawOfDer_derOfSignature] at h
    exact ⟨sig, rfl, (Except.ok.inj h).symm⟩

theorem PrivateKey.verify_sign {key : PrivateKey} {message signature : Bytes} (ha : key.AcceptsOwn message)
    (h : key.sign message = .ok signature) : verify key.alg key.publicKey message signature = .ok () := by
  cases key with
  | rsa k =>
    have hs : Rsa.sign k message = .ok signature := rsaAnswer_eq_ok h
    exact (verify_rsa _ _ _).trans (if_pos (Rsa.verifies_sign hs))
  | ecdsa k =>
    have hs : ecdsaAnswer (P256.sign? k message) = .ok signature := h
    obtain ⟨sig, hsig, rfl⟩ := ecdsaAnswer_eq_ok hs
    exact (verify_ecdsa _ _ _).trans (if_pos (ha.ecdsa k rfl sig hsig))
  | ed25519 k =>
    have hs : Ed25519.sign k message = signature := Except.ok.inj h
    exact hs ▸ (verify_ed25519 _ _ _).trans (if_pos (ha.ed25519 k rfl))

end Keyring
