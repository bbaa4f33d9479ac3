import Keyring.Proofs.Key.Normalized

set_option autoImplicit false

namespace Keyring

open EcdsaSignature (IsStrict coordinateLimit numbers rawOfDer rawOfNumbers)

namespace P256.Signature

variable {sig : Signature} {raw der : Bytes}

/-- The bytes are the two numbers of the signature, most significant byte first and in 32 bytes each. -/
structure Written (sig : Signature) (raw : Bytes) : Prop where
  length : raw.length = 64
  r : Bytes.toNat (raw.take 32) = sig.r
  s : Bytes.toNat (raw.drop 32) = sig.s

theorem lt_coordinateLimit (sig : Signature) : sig.r < coordinateLimit ∧ sig.s < coordinateLimit := by
  have horder : order < coordinateLimit := by decide
  exact ⟨Nat.lt_trans sig.r_range.2 horder, Nat.lt_trans sig.s_range.2 horder⟩

theorem toNat_ofNat_of_lt {n : Nat} (h : n < coordinateLimit) : Bytes.toNat (Bytes.ofNat 32 n) = n := by
  have hlimit : coordinateLimit = Nat.pow 256 32 := by decide
  rw [Bytes.toNat_ofNat, Nat.mod_eq_of_lt (hlimit ▸ h)]

theorem written_iff : sig.Written raw ↔ raw = Bytes.ofNat 32 sig.r ++ Bytes.ofNat 32 sig.s := by
  obtain ⟨hr, hs⟩ := sig.lt_coordinateLimit
  constructor
  · rintro ⟨hlen, hrvalue, hsvalue⟩
    have hhead : raw.take 32 = Bytes.ofNat 32 sig.r := by
      refine Bytes.eq_of_toNat_eq ?_ (by rw [hrvalue, toNat_ofNat_of_lt hr])
      rw [List.length_take, hlen, Bytes.ofNat_length]
      rfl
    have htail : raw.drop 32 = Bytes.ofNat 32 sig.s := by
      refine Bytes.eq_of_toNat_eq ?_ (by rw [hsvalue, toNat_ofNat_of_lt hs])
      rw [List.length_drop, hlen, Bytes.ofNat_length]
    rw [← hhead, ← htail, List.take_append_drop]
  · rintro rfl
    refine ⟨by simp, ?_, ?_⟩
    · rw [List.take_left' (Bytes.ofNat_length 32 _), toNat_ofNat_of_lt hr]
    · rw [List.drop_left' (Bytes.ofNat_length 32 _), toNat_ofNat_of_lt hs]

theorem Written.numbers_eq (h : sig.Written raw) : numbers raw = (sig.r, sig.s) := by
  rw [numbers, h.length, show 64 / 2 = 32 from rfl, h.r, h.s]

/-- DER has no room for zeros in front, and they come back on the way from it. -/
theorem Written.rawOfDer_eq (h : sig.Written raw) (hder : IsStrict sig.r sig.s der) :
    rawOfDer der = .ok raw := by
  rw [EcdsaSignature.rawOfDer_of_isStrict hder, rawOfNumbers, if_pos sig.lt_coordinateLimit, written_iff.mp h]

theorem Written.verify_eq (h : sig.Written raw) (key : P256.PublicKey) (message : Bytes) :
    verify .es256 (.ecdsa key) message raw =
      if P256.verifies key message sig then .ok () else .error .invalidSignature := by
  rw [written_iff.mp h, verify_ecdsa]

end P256.Signature

namespace PrivateKey

variable {k : P256.PrivateKey} {message signature : Bytes} {error : KeyError}

theorem exists_derOfSignature (sig : P256.Signature) :
    ∃ der, derOfSignature sig = .ok der ∧ IsStrict sig.r sig.s der := by
  have hwritten := P256.Signature.written_iff.mpr (Eq.refl (Bytes.ofNat 32 sig.r ++ Bytes.ofNat 32 sig.s))
  obtain ⟨der, hder⟩ := EcdsaSignature.derOfRaw_of_length (hwritten.length.trans (by decide))
  have hstrict := EcdsaSignature.isStrict_of_derOfRaw hder
  rw [hwritten.numbers_eq] at hstrict
  exact ⟨der, hder, hstrict⟩

theorem ecdsaAnswer_eq (sig : P256.Signature) : ∃ raw, sig.Written raw ∧ ecdsaAnswer (some sig) = .ok raw := by
  refine ⟨_, P256.Signature.written_iff.mpr rfl, ?_⟩
  rw [ecdsaAnswer, rawOfDer_derOfSignature]

theorem sign_ecdsa_eq_ok (h : (PrivateKey.ecdsa k).sign message = .ok signature) :
    ∃ sig, P256.sign? k message = some sig ∧ sig.Written signature := by
  obtain ⟨sig, hsig, hraw⟩ := ecdsaAnswer_eq_ok h
  exact ⟨sig, hsig, P256.Signature.written_iff.mpr hraw⟩

theorem sign_ecdsa_eq_error (h : (PrivateKey.ecdsa k).sign message = .error error) :
    P256.sign? k message = none ∧ error = .internal .ecdsaSigning := by
  rw [sign] at h
  cases hsig : P256.sign? k message with
  | none =>
    rw [hsig] at h
    exact ⟨rfl, (Except.error.inj h).symm⟩
  | some sig =>
    obtain ⟨raw, -, hraw⟩ := ecdsaAnswer_eq sig
    rw [hsig, hraw] at h
    cases h

end PrivateKey

/-- What a key signs is accepted under its public key; on the two curves this takes for granted that the
native check accepts the native signature. A key of ECDSA fails to sign only if the native signer does, and
never on the way through DER. Whatever the native signature is, it comes out as its two numbers with 32 bytes
each, which are judged like the native signature itself. -/
theorem signatures_verify_at_fixed_width (key : PrivateKey) (message : Bytes) :
    (key.AcceptsOwn message → ∀ signature, key.sign message = .ok signature →
      verify key.alg key.publicKey message signature = .ok ()) ∧
    (∀ k, key = .ecdsa k →
      (∀ error, key.sign message = .error error → P256.sign? k message = none ∧
        ∀ fault, error ≠ KeyError.ofSignatureFault fault) ∧
      ∀ signature, key.sign message = .ok signature →
        ∃ sig, P256.sign? k message = some sig ∧ sig.Written signature) ∧
    ∀ sig : P256.Signature, ∃ raw, sig.Written raw ∧ PrivateKey.ecdsaAnswer (some sig) = .ok raw ∧
      (∃ der, PrivateKey.derOfSignature sig = .ok der ∧ IsStrict sig.r sig.s der) ∧
      (∀ der, IsStrict sig.r sig.s der → rawOfDer der = .ok raw) ∧
      ∀ publicKey, verify .es256 (.ecdsa publicKey) message raw =
        if P256.verifies publicKey message sig then .ok () else .error .invalidSignature := by
  refine ⟨fun ha signature h => PrivateKey.verify_sign ha h, ?_, fun sig => ?_⟩
  · rintro k rfl
    refine ⟨fun error h => ?_, fun signature h => PrivateKey.sign_ecdsa_eq_ok h⟩
    obtain ⟨hnone, rfl⟩ := PrivateKey.sign_ecdsa_eq_error h
    exact ⟨hnone, fun fault => by cases fault <;> simp [KeyError.ofSignatureFault]⟩
  · obtain ⟨raw, hwritten, hraw⟩ := PrivateKey.ecdsaAnswer_eq sig
    exact ⟨raw, hwritten, hraw, PrivateKey.exists_derOfSignature sig, fun _ hder => hwritten.rawOfDer_eq hder,
      fun publicKey => hwritten.verify_eq publicKey message⟩

/-- A message whose signature under the least key has a first number of 31 bytes. -/
theorem signature_with_zero_in_front_verifies :
    let k : P256.PrivateKey := ⟨1, by decide, by decide⟩
    ∃ sig signature, P256.sign? k [30, 0] = some sig ∧ Bytes.width sig.r = 31 ∧ sig.Written signature ∧
      (PrivateKey.ecdsa k).sign [30, 0] = .ok signature ∧
      verify .es256 (PrivateKey.ecdsa k).publicKey [30, 0] signature = .ok () := by
  intro k
  have hsigned : (P256.sign? k [30, 0]).any
      (fun sig => P256.verifies k.publicKey [30, 0] sig && Bytes.width sig.r = 31) = true := by decide +kernel
  obtain ⟨sig, hsig, hsigned⟩ := (Option.any_eq_true _ _).mp hsigned
  obtain ⟨hverifies, hwidth⟩ := Bool.and_eq_true_iff.mp hsigned
  have haccepts : (PrivateKey.ecdsa k).AcceptsOwn [30, 0] := by
    refine ⟨fun k' hk sig' hsig' => ?_, nofun⟩
    obtain rfl := PrivateKey.ecdsa.inj hk
    rw [hsig] at hsig'
    exact Option.some.inj hsig' ▸ hverifies
  obtain ⟨haccepted, hecdsa, hanswers⟩ := signatures_verify_at_fixed_width (.ecdsa k) [30, 0]
  obtain ⟨raw, hwritten, hraw, -⟩ := hanswers sig
  have hsign : (PrivateKey.ecdsa k).sign [30, 0] = .ok raw := by rw [PrivateKey.sign, hsig, hraw]
  exact ⟨sig, raw, hsig, of_decide_eq_true hwidth, hwritten, hsign, haccepted haccepts raw hsign⟩

end Keyring
