import Keyring.Proofs.EcdsaSignature.Widths
import Keyring.Proofs.Key.Verify

set_option autoImplicit false

namespace Keyring

open EcdsaSignature (numbers coordinateLimit derOfRaw rawOfDer rawOfNumbers)

section kinds

variable {alg : Alg} {key : PublicKey} {message signature : Bytes}

theorem verify_of_alg_ne (h : key.alg ≠ alg) :
    verify alg key message signature = .error (.wrongKeyType alg) := by
  cases key with
  | rsa k =>
    cases alg with
    | rs256 => exact absurd rfl h
    | es256 => rfl
    | edDsa => rfl
  | ecdsa k =>
    cases alg with
    | rs256 => rfl
    | es256 => exact absurd rfl h
    | edDsa => rfl
  | ed25519 k =>
    cases alg with
    | rs256 => rfl
    | es256 => rfl
    | edDsa => exact absurd rfl h

theorem verify_of_odd (halg : alg = .es256) (h : key.alg = alg) (hodd : signature.length % 2 = 1) :
    verify alg key message signature = .error (.decode (.oddSignature signature.length)) := by
  subst halg
  cases key with
  | rsa k => cases h
  | ecdsa k => exact if_pos (by omega)
  | ed25519 k => cases h

theorem verify_of_alg_eq (h : key.alg = alg) (heven : ¬ (alg = .es256 ∧ signature.length % 2 = 1)) :
    verify alg key message signature = .ok () ∨
      verify alg key message signature = .error .invalidSignature := by
  have answered (isValid : Bool) :
      (if isValid then .ok () else .error .invalidSignature : Except KeyError Unit) = .ok () ∨
        (if isValid then .ok () else .error .invalidSignature : Except KeyError Unit) =
          .error .invalidSignature := by
    cases isValid <;> simp
  subst h
  cases key with
  | rsa k => exact answered _
  | ecdsa k =>
    have hlen : ¬ signature.length % 2 ≠ 0 := fun hodd => heven ⟨rfl, Nat.mod_two_ne_zero.mp hodd⟩
    simp only [verify, PublicKey.alg, if_neg hlen]
    exact answered _
  | ed25519 k => exact answered _

theorem verify_cases (alg : Alg) (key : PublicKey) (message signature : Bytes) :
    (key.alg ≠ alg ∧ verify alg key message signature = .error (.wrongKeyType alg)) ∨
    (key.alg = alg ∧ (alg = .es256 ∧ signature.length % 2 = 1) ∧
      verify alg key message signature = .error (.decode (.oddSignature signature.length))) ∨
    (key.alg = alg ∧ ¬ (alg = .es256 ∧ signature.length % 2 = 1) ∧
      (verify alg key message signature = .ok () ∨
        verify alg key message signature = .error .invalidSignature)) := by
  by_cases hkind : key.alg = alg
  · by_cases hodd : alg = .es256 ∧ signature.length % 2 = 1
    · exact .inr (.inl ⟨hkind, hodd, verify_of_odd hodd.1 hkind hodd.2⟩)
    · exact .inr (.inr ⟨hkind, hodd, verify_of_alg_eq hkind hodd⟩)
  · exact .inl ⟨hkind, verify_of_alg_ne hkind⟩

theorem verify_eq_wrongKeyType_iff {expected : Alg} :
    verify alg key message signature = .error (.wrongKeyType expected) ↔ expected = alg ∧ key.alg ≠ alg := by
  rcases verify_cases alg key message signature with
    ⟨hkind, h⟩ | ⟨hkind, -, h⟩ | ⟨hkind, -, h | h⟩ <;> rw [h]
  · rw [Except.error.injEq, KeyError.wrongKeyType.injEq, eq_comm]
    exact (and_iff_left hkind).symm
  all_goals exact iff_of_false nofun fun h => h.2 hkind

theorem verify_eq_decode_iff :
    (∃ fault, verify alg key message signature = .error (.decode fault)) ↔
      alg = .es256 ∧ key.alg = .es256 ∧ signature.length % 2 = 1 := by
  rcases verify_cases alg key message signature with
    ⟨hkind, h⟩ | ⟨hkind, hodd, h⟩ | ⟨hkind, hodd, h | h⟩ <;> rw [h]
  · exact iff_of_false nofun fun h => hkind (h.2.1.trans h.1.symm)
  · exact iff_of_true ⟨_, rfl⟩ ⟨hodd.1, hkind.trans hodd.1, hodd.2⟩
  all_goals exact iff_of_false nofun fun h => hodd ⟨h.1, h.2.2⟩

end kinds

section numbers

theorem normalized?_eq (raw : Bytes) : normalized? raw =
    if (numbers raw).1 < coordinateLimit ∧ (numbers raw).2 < coordinateLimit then
      some (Bytes.ofNat 32 (numbers raw).1 ++ Bytes.ofNat 32 (numbers raw).2)
    else none := by
  have hfits (bs : Bytes) : (Bytes.magnitude bs).length ≤ 32 ↔ Bytes.toNat bs < coordinateLimit := by
    rw [Bytes.magnitude_length, Bytes.width_le_iff, show coordinateLimit = Nat.pow 256 32 by decide]
  unfold normalized? numbers
  simp only [hfits]
  split
  · rename_i h
    rw [Bytes.replicate_append_magnitude_eq_ofNat ((hfits _).mpr h.1),
      Bytes.replicate_append_magnitude_eq_ofNat ((hfits _).mpr h.2)]
  · rfl

theorem normalized?_eq_rawOfNumbers (raw : Bytes) :
    normalized? raw = (rawOfNumbers (numbers raw).1 (numbers raw).2).toOption := by
  rw [normalized?_eq, rawOfNumbers]
  split <;> rfl

theorem signatureOfRaw?_eq (raw : Bytes) : signatureOfRaw? raw =
    if (numbers raw).1 < coordinateLimit ∧ (numbers raw).2 < coordinateLimit then
      signatureOfRaw? (Bytes.ofNat 32 (numbers raw).1 ++ Bytes.ofNat 32 (numbers raw).2)
    else none := by
  rw [signatureOfRaw?, signatureOfRaw?, normalized?_ofNat, normalized?_eq]
  split <;> rfl

theorem verify_of_numbers {key : PublicKey} (message : Bytes) {signature : Bytes} (hkind : key.alg = .es256)
    (heven : signature.length % 2 = 0) : verify .es256 key message signature =
      if (numbers signature).1 < coordinateLimit ∧ (numbers signature).2 < coordinateLimit then
        verify .es256 key message
          (Bytes.ofNat 32 (numbers signature).1 ++ Bytes.ofNat 32 (numbers signature).2)
      else .error .invalidSignature := by
  cases key with
  | rsa k => cases hkind
  | ed25519 k => cases hkind
  | ecdsa k =>
    have hlen (r s : Nat) : ¬ (Bytes.ofNat 32 r ++ Bytes.ofNat 32 s).length % 2 ≠ 0 := by simp
    have hlen' : ¬ signature.length % 2 ≠ 0 := not_not_intro heven
    simp only [verify, if_neg hlen', hlen, if_false]
    rw [signatureOfRaw?_eq]
    split <;> rfl

end numbers

section codec

variable {signature der : Bytes}

theorem rawOfDer_of_derOfRaw (h : derOfRaw signature = .ok der) :
    rawOfDer der = rawOfNumbers (numbers signature).1 (numbers signature).2 :=
  EcdsaSignature.rawOfDer_of_isStrict (EcdsaSignature.isStrict_of_derOfRaw h)

theorem normalized?_eq_some_iff (h : derOfRaw signature = .ok der) {raw : Bytes} :
    normalized? signature = some raw ↔ rawOfDer der = .ok raw := by
  rw [normalized?_eq_rawOfNumbers, rawOfDer_of_derOfRaw h]
  cases rawOfNumbers (numbers signature).1 (numbers signature).2 <;> simp [Except.toOption]

theorem normalized?_eq_none_iff (h : derOfRaw signature = .ok der) :
    normalized? signature = none ↔ ∃ length most,
      (rawOfDer der).mapError KeyError.ofSignatureFault = .error (.integerTooLarge length most) := by
  rw [rawOfDer_of_derOfRaw h, EcdsaSignature.rawOfNumbers_mapError, normalized?_eq]
  split <;> simp

end codec

/-- The kind of the key is looked at first, then, for ECDSA, whether the signature can be halved, and any
other failure is that of an invalid signature. For ECDSA the numbers in the halves decide, which must fit
into 32 bytes each, and do so just if the signature written in DER is read again. -/
theorem verification_by_numbers (alg : Alg) (key : PublicKey) (message signature : Bytes) :
    (∀ expected, verify alg key message signature = .error (.wrongKeyType expected) ↔
      expected = alg ∧ key.alg ≠ alg) ∧
    ((∃ fault, verify alg key message signature = .error (.decode fault)) ↔
      alg = .es256 ∧ key.alg = .es256 ∧ signature.length % 2 = 1) ∧
    (key.alg = alg → ¬ (alg = .es256 ∧ signature.length % 2 = 1) →
      verify alg key message signature = .ok () ∨
        verify alg key message signature = .error .invalidSignature) ∧
    (alg = .es256 → key.alg = .es256 → signature.length % 2 = 0 → verify alg key message signature =
      if (numbers signature).1 < coordinateLimit ∧ (numbers signature).2 < coordinateLimit then
        verify alg key message (Bytes.ofNat 32 (numbers signature).1 ++ Bytes.ofNat 32 (numbers signature).2)
      else .error .invalidSignature) ∧
    ∀ der, derOfRaw signature = .ok der →
      (∀ raw, normalized? signature = some raw ↔ rawOfDer der = .ok raw) ∧
      (normalized? signature = none ↔ ∃ length most,
        (rawOfDer der).mapError KeyError.ofSignatureFault = .error (.integerTooLarge length most)) := by
  refine ⟨fun expected => verify_eq_wrongKeyType_iff, verify_eq_decode_iff, verify_of_alg_eq, ?_, ?_⟩
  · rintro rfl hkind heven
    exact verify_of_numbers message hkind heven
  · exact fun der h => ⟨fun raw => normalized?_eq_some_iff h, normalized?_eq_none_iff h⟩

/-- Numbers of one byte each, under the point that the curve starts from. -/
theorem verification_of_narrow_signature :
    let key : PublicKey := .ecdsa ⟨P256.base, P256.curve_contains_base.1, P256.curve_contains_base.2.1⟩
    (∀ message, verify .es256 key message [1, 128] =
      verify .es256 key message (Bytes.ofNat 32 1 ++ Bytes.ofNat 32 128)) ∧
    (∀ message, verify .es256 key message [1, 128] = .ok () ∨
      verify .es256 key message [1, 128] = .error .invalidSignature) ∧
    (∀ message signature, verify .edDsa key message signature = .error (.wrongKeyType .edDsa)) ∧
    normalized? [1, 128] = some (Bytes.ofNat 32 1 ++ Bytes.ofNat 32 128) := by
  intro key
  have hder : derOfRaw [1, 128] = .ok [0x30, 0x07, 0x02, 0x01, 0x01, 0x02, 0x02, 0x00, 0x80] := by rfl
  refine ⟨fun message => ?_, fun message => ?_, fun message signature => ?_, ?_⟩
  · exact ((verification_by_numbers .es256 key message [1, 128]).2.2.2.1 rfl rfl rfl).trans
      (if_pos (by decide))
  · exact (verification_by_numbers .es256 key message [1, 128]).2.2.1 rfl (by decide)
  · exact ((verification_by_numbers .edDsa key message signature).1 .edDsa).mpr ⟨rfl, by decide⟩
  · exact ((verification_by_numbers .es256 key [] [1, 128]).2.2.2.2 _ hder).1 _ |>.mpr (by rfl)

end Keyring
