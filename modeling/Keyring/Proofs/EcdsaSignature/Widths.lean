import Keyring.Proofs.EcdsaSignature.Strict

set_option autoImplicit false

namespace Keyring

theorem Der.length_lt_length_write (tag : Der.Tag) (content : Bytes) :
    content.length < (Der.write tag content).length := by
  simp only [Der.write, List.length_cons, List.length_append]
  omega

namespace EcdsaSignature

/-- The numbers in the two halves of a raw signature. -/
def numbers (raw : Bytes) : Nat × Nat :=
  (Bytes.toNat (raw.take (raw.length / 2)), Bytes.toNat (raw.drop (raw.length / 2)))

def pairContent (r s : Nat) : Bytes := Der.writeNatural r ++ Der.writeNatural s

def widened (k : Nat) (raw : Bytes) : Bytes :=
  (List.replicate k 0 ++ raw.take (raw.length / 2)) ++ (List.replicate k 0 ++ raw.drop (raw.length / 2))

theorem writePair_minimal (r s : Bytes) :
    writePair (Bytes.minimal (Bytes.toNat r)) (Bytes.minimal (Bytes.toNat s)) = writePair r s := by
  rw [writePair, Der.integerContent_minimal, Der.integerContent_minimal]
  rfl

theorem derOfRaw_eq (raw : Bytes) : derOfRaw raw =
    if raw = [] ∨ raw.length % 2 ≠ 0 then .error (.rawLength raw.length)
    else writePair (Bytes.minimal (numbers raw).1) (Bytes.minimal (numbers raw).2) := by
  rw [numbers, writePair_minimal]
  rfl

theorem writePair_minimal_eq_ok_iff {r s : Nat} {der : Bytes} :
    writePair (Bytes.minimal r) (Bytes.minimal s) = .ok der ↔
      (pairContent r s).length ≤ 0xFFFF ∧ der = Der.write .sequence (pairContent r s) := by
  simp only [writePair_eq_ok, writeElement_eq_ok_iff, Der.isElement_iff]
  constructor
  · rintro ⟨_, _, ⟨-, rfl⟩, ⟨-, rfl⟩, hder⟩
    exact hder
  · intro hder
    have hr := Der.length_lt_length_write .integer (Der.integerContent (Bytes.minimal r))
    have hs := Der.length_lt_length_write .integer (Der.integerContent (Bytes.minimal s))
    have hlen := hder.1
    rw [pairContent, Der.writeNatural, Der.writeNatural, List.length_append] at hlen
    exact ⟨_, _, ⟨by omega, rfl⟩, ⟨by omega, rfl⟩, hder⟩

theorem derOfRaw_eq_ok_iff {raw der : Bytes} : derOfRaw raw = .ok der ↔
    raw ≠ [] ∧ raw.length % 2 = 0 ∧ (pairContent (numbers raw).1 (numbers raw).2).length ≤ 0xFFFF ∧
      der = Der.write .sequence (pairContent (numbers raw).1 (numbers raw).2) := by
  rw [derOfRaw_eq, ite_error_eq_ok, writePair_minimal_eq_ok_iff, not_or, Decidable.not_not, and_assoc]

theorem derOfRaw_eq_error_iff {raw : Bytes} : (∃ fault, derOfRaw raw = .error fault) ↔
    raw = [] ∨ raw.length % 2 = 1 ∨ 0xFFFF < (pairContent (numbers raw).1 (numbers raw).2).length := by
  rw [exists_error_iff]
  simp only [derOfRaw_eq_ok_iff]
  constructor
  · intro h
    by_cases hnil : raw = []
    · exact .inl hnil
    · by_cases heven : raw.length % 2 = 0
      · exact .inr (.inr (Nat.lt_of_not_le fun hlen => h ⟨_, hnil, heven, hlen, rfl⟩))
      · exact .inr (.inl (Nat.mod_two_ne_zero.mp heven))
  · rintro h ⟨der, hne, heven, hlen, -⟩
    rcases h with hnil | hodd | hlong
    · exact hne hnil
    · omega
    · omega

theorem derOfRaw_of_numbers {raw raw' : Bytes} (hne : raw ≠ []) (heven : raw.length % 2 = 0)
    (hne' : raw' ≠ []) (heven' : raw'.length % 2 = 0) (h : numbers raw = numbers raw') :
    derOfRaw raw = derOfRaw raw' := by
  rw [derOfRaw_eq, derOfRaw_eq, if_neg (by simp [hne, heven]), if_neg (by simp [hne', heven']), h]

section width

variable {k : Nat} {raw : Bytes}

theorem length_widened (k : Nat) (raw : Bytes) : (widened k raw).length = 2 * k + raw.length := by
  simp only [widened, List.length_append, List.length_replicate, List.length_take, List.length_drop]
  omega

theorem numbers_widened (heven : raw.length % 2 = 0) : numbers (widened k raw) = numbers raw := by
  have hhalf : (widened k raw).length / 2 =
      (List.replicate k (0 : UInt8) ++ raw.take (raw.length / 2)).length := by
    rw [length_widened, List.length_append, List.length_replicate, List.length_take]
    omega
  have hvalue (bs : Bytes) : Bytes.toNat (List.replicate k 0 ++ bs) = Bytes.toNat bs := by
    rw [← Bytes.toNat_magnitude, Bytes.magnitude_replicate_append, Bytes.toNat_magnitude]
  rw [numbers, hhalf, widened, List.take_left, List.drop_left, hvalue, hvalue, numbers]

theorem derOfRaw_widened (hne : raw ≠ []) (heven : raw.length % 2 = 0) :
    derOfRaw (widened k raw) = derOfRaw raw := by
  have hlen := length_widened k raw
  refine derOfRaw_of_numbers ?_ (by omega) hne heven (numbers_widened heven)
  intro hnil
  rw [hnil, List.length_nil] at hlen
  exact hne (List.length_eq_zero_iff.mp (by omega))

end width

section faults

theorem decodes_writeElement (tag : Der.Tag) (content : Bytes) : Decodes (writeElement tag content) := by
  rw [writeElement_eq]
  split <;> simp [KeyError.ofSignatureFault]

theorem decodes_derOfRaw (raw : Bytes) : Decodes (derOfRaw raw) := by
  unfold derOfRaw
  split
  · exact decodes_error_iff.mpr rfl
  · refine (decodes_writeElement _ _).bind fun r => (decodes_writeElement _ _).bind fun s => ?_
    exact decodes_writeElement _ _

end faults

theorem isStrict_of_derOfRaw {raw der : Bytes} (h : derOfRaw raw = .ok der) :
    IsStrict (numbers raw).1 (numbers raw).2 der :=
  writePair_eq_ok_iff.mp (derOfRaw_eq_ok.mp h).2.2

/-- A byte string is written in DER but for an odd length, none at all, or numbers too long for the two bytes
of a length. What is written is strict, is the same for all that have these numbers in their halves, as with
more zeros in front of both, and is read as the numbers in 32 bytes each, if they fit. -/
theorem writing_of_any_width (raw : Bytes) :
    ((∃ fault, derOfRaw raw = .error fault) ↔ raw = [] ∨ raw.length % 2 = 1 ∨
      0xFFFF < (pairContent (numbers raw).1 (numbers raw).2).length) ∧
    (∀ fault, derOfRaw raw = .error fault → KeyError.ofSignatureFault fault = .decode (.signature fault)) ∧
    (raw ≠ [] → raw.length % 2 = 0 →
      (∀ raw', raw' ≠ [] → raw'.length % 2 = 0 → numbers raw = numbers raw' →
        derOfRaw raw = derOfRaw raw') ∧
      ∀ k, derOfRaw (widened k raw) = derOfRaw raw) ∧
    ∀ der, derOfRaw raw = .ok der → IsStrict (numbers raw).1 (numbers raw).2 der ∧
      (rawOfDer der).mapError KeyError.ofSignatureFault =
        if (numbers raw).1 < coordinateLimit ∧ (numbers raw).2 < coordinateLimit then
          .ok (Bytes.ofNat 32 (numbers raw).1 ++ Bytes.ofNat 32 (numbers raw).2)
        else .error (.integerTooLarge
          (Bytes.width (if (numbers raw).1 < coordinateLimit then (numbers raw).2 else (numbers raw).1)) 32) := by
  refine ⟨derOfRaw_eq_error_iff, decodes_derOfRaw raw, fun hne heven => ⟨fun raw' hne' heven' h => ?_,
    fun k => derOfRaw_widened hne heven⟩, fun der h => ?_⟩
  · exact derOfRaw_of_numbers hne heven hne' heven' h
  · have hstrict := isStrict_of_derOfRaw h
    exact ⟨hstrict, by rw [rawOfDer_of_isStrict hstrict, rawOfNumbers_mapError]⟩

/-- The numbers 1 and 128 in a byte each, and in two bytes each. -/
theorem writing_of_narrow_numbers :
    let der : Bytes := [0x30, 0x07, 0x02, 0x01, 0x01, 0x02, 0x02, 0x00, 0x80]
    derOfRaw [1, 128] = .ok der ∧ derOfRaw [0, 1, 0, 128] = .ok der ∧ IsStrict 1 128 der ∧
      (rawOfDer der).mapError KeyError.ofSignatureFault = .ok (Bytes.ofNat 32 1 ++ Bytes.ofNat 32 128) ∧
      (∃ fault, derOfRaw [1, 0, 128] = .error fault ∧
        KeyError.ofSignatureFault fault = .decode (.signature fault)) := by
  intro der
  have hder : derOfRaw [1, 128] = .ok der := by rfl
  obtain ⟨-, -, hwidth, hread⟩ := writing_of_any_width [1, 128]
  have hsame := (hwidth (by decide) (by decide)).2 1
  obtain ⟨fault, hfault⟩ := (writing_of_any_width [1, 0, 128]).1.mpr (.inr (.inl (by decide)))
  refine ⟨hder, hsame.trans hder, (hread der hder).1, ?_, fault, hfault,
    (writing_of_any_width [1, 0, 128]).2.1 fault hfault⟩
  exact (hread der hder).2.trans (if_pos (by decide))

end EcdsaSignature
end Keyring
