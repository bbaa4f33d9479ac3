import Keyring.Error
import Keyring.Proofs.Der.Strict
import Keyring.Proofs.EcdsaSignature.Access
import Keyring.Proofs.EcdsaSignature.Codec

set_option autoImplicit false

namespace Keyring.EcdsaSignature

/-- Nothing but a sequence of two integers that are not negative, all of it in distinguished forms. -/
def IsStrict (r s : Nat) (der : Bytes) : Prop :=
  ∃ cr cs er es, Der.Shortest (Der.IsInteger r) cr ∧ Der.Shortest (Der.IsInteger s) cs ∧
    Der.IsElement .integer cr er ∧ Der.IsElement .integer cs es ∧ Der.IsElement .sequence (er ++ es) der

section write

theorem lengthBytes_eq (n : Nat) :
    lengthBytes n = if n ≤ 0xFFFF then .ok (Der.lengthBytes n) else .error (.encodedLength n) := by
  by_cases hshort : n < 0x80
  · rw [lengthBytes, if_pos hshort, if_pos (by omega), Der.lengthBytes, if_pos hshort]
  by_cases hone : n < 0x100
  · have hwidth : Bytes.width n = 1 :=
      Bytes.width_eq_succ (Nat.le_trans (by decide : Nat.pow 256 0 ≤ 0x80) (Nat.not_lt.mp hshort)) hone
    rw [lengthBytes, if_neg hshort, if_pos hone, if_pos (by omega), Der.lengthBytes, if_neg hshort,
      Bytes.minimal, hwidth, Bytes.ofNat, Bytes.ofNatReversed, Nat.mod_eq_of_lt hone]
    rfl
  by_cases htwo : n < 0x10000
  · have hwidth : Bytes.width n = 2 := Bytes.width_eq_succ (Nat.not_lt.mp hone) htwo
    rw [lengthBytes, if_neg hshort, if_neg hone, if_pos htwo, if_pos (by omega), Der.lengthBytes,
      if_neg hshort, Bytes.minimal, hwidth, Bytes.ofNat, Bytes.ofNatReversed, Bytes.ofNatReversed,
      Nat.mod_eq_of_lt (show n / 256 < 256 by omega)]
    rfl
  · rw [lengthBytes, if_neg hshort, if_neg hone, if_neg htwo, if_neg (by omega)]

theorem writeElement_eq (tag : Der.Tag) (content : Bytes) : writeElement tag content =
    if content.length ≤ 0xFFFF then .ok (Der.write tag content)
    else .error (.encodedLength content.length) := by
  rw [writeElement, lengthBytes_eq]
  split <;> rfl

theorem writeElement_eq_ok_iff {tag : Der.Tag} {content element : Bytes} :
    writeElement tag content = .ok element ↔ Der.IsElement tag content element := by
  rw [writeElement_eq, ite_else_error_eq_ok, Der.isElement_iff, Except.ok.injEq, eq_comm (a := element)]

theorem writePair_eq_ok_iff {r s der : Bytes} :
    writePair r s = .ok der ↔ IsStrict (Bytes.toNat r) (Bytes.toNat s) der := by
  simp only [writePair_eq_ok, writeElement_eq_ok_iff, IsStrict, Der.shortest_integer_iff,
    Der.integerContent_minimal]
  constructor
  · rintro ⟨er, es, h⟩
    exact ⟨_, _, er, es, rfl, rfl, h⟩
  · rintro ⟨_, _, er, es, rfl, rfl, h⟩
    exact ⟨er, es, h⟩

end write

section faults

variable {α β : Type}

def Decodes (x : Except Fault α) : Prop :=
  ∀ fault, x = .error fault → KeyError.ofSignatureFault fault = .decode (.signature fault)

@[simp] theorem decodes_ok (x : α) : Decodes (.ok x) := nofun

@[simp] theorem decodes_error_iff {fault : Fault} : Decodes (.error fault : Except Fault α) ↔
    KeyError.ofSignatureFault fault = .decode (.signature fault) := by
  simp [Decodes]

theorem Decodes.bind {x : Except Fault α} {f : α → Except Fault β} (h : Decodes x)
    (hf : ∀ a, Decodes (f a)) : Decodes (x >>= f) := by
  cases x with
  | error fault => exact decodes_error_iff.mpr (decodes_error_iff.mp h)
  | ok a => exact hf a

theorem decodes_takeBytes (n : Nat) (bs : Bytes) : Decodes (takeBytes n bs) := by
  unfold takeBytes
  split <;> simp [KeyError.ofSignatureFault]

theorem decodes_readLength (bs : Bytes) : Decodes (readLength bs) := by
  fun_cases readLength bs <;> simp [KeyError.ofSignatureFault]

theorem decodes_readElement (tag : Der.Tag) (bs : Bytes) : Decodes (readElement tag bs) := by
  cases bs with
  | nil => exact decodes_error_iff.mpr rfl
  | cons actual rest =>
    simp only [readElement]
    split
    · exact decodes_error_iff.mpr rfl
    · exact (decodes_readLength rest).bind fun result => decodes_takeBytes _ _

theorem decodes_finish (rest : Bytes) : Decodes (finish rest) := by
  unfold finish
  split <;> simp [KeyError.ofSignatureFault]

theorem decodes_readInteger (bs : Bytes) : Decodes (readInteger bs) := by
  refine (decodes_readElement _ _).bind ?_
  rintro ⟨content, rest⟩
  dsimp only
  split <;> simp [KeyError.ofSignatureFault]

theorem decodes_readPair (der : Bytes) : Decodes (readPair der) := by
  refine (decodes_readElement _ _).bind fun body => (decodes_finish _).bind fun _ => ?_
  refine (decodes_readInteger _).bind fun r => (decodes_readInteger _).bind fun s => ?_
  exact (decodes_finish _).bind fun _ => decodes_ok _

end faults

section read

def coordinateLimit : Nat := Nat.pow 2 256

/-- Two numbers with 32 bytes each, or the first of them that needs more. -/
def rawOfNumbers (r s : Nat) : Except Fault Bytes :=
  if r < coordinateLimit ∧ s < coordinateLimit then .ok (Bytes.ofNat 32 r ++ Bytes.ofNat 32 s)
  else .error (.integerTooLarge (Bytes.width (if r < coordinateLimit then s else r)) 32)

theorem coordinate_naturalBytes (bs : Bytes) : coordinate (Der.naturalBytes bs) =
    if Bytes.toNat bs < coordinateLimit then .ok (Bytes.ofNat 32 (Bytes.toNat bs))
    else .error (.integerTooLarge (Bytes.width (Bytes.toNat bs)) 32) := by
  have hlimit : coordinateLimit = Nat.pow 256 32 := by decide
  by_cases hn : Bytes.toNat bs < coordinateLimit
  · rw [if_pos hn, coordinate_eq_ok (naturalBytes_naturalBytes bs)]
    refine ⟨Bytes.ofNat_length 32 _, ?_⟩
    have hvalue : Bytes.toNat (Bytes.ofNat 32 (Bytes.toNat bs)) = Bytes.toNat bs := by
      rw [Bytes.toNat_ofNat, Nat.mod_eq_of_lt (hlimit ▸ hn)]
    rw [Der.naturalBytes, Der.naturalBytes, Bytes.magnitude_eq_minimal, hvalue, ← Bytes.magnitude_eq_minimal]
  · have hwidth : 32 < Bytes.width (Bytes.toNat bs) :=
      Nat.lt_of_not_le fun hle => hn (hlimit ▸ Bytes.width_le_iff.mp hle)
    have hlen := Bytes.magnitude_length bs
    have hbytes : Der.naturalBytes bs = Bytes.magnitude bs := by
      refine if_neg fun hnil => ?_
      rw [hnil, List.length_nil] at hlen
      omega
    rw [if_neg hn, hbytes, coordinate, if_pos (hlen ▸ hwidth), hlen]
    rfl

theorem readPair_eq_ok_iff {der : Bytes} {r s : Nat} :
    IsStrict r s der ↔
      readPair der = .ok (Der.naturalBytes (Bytes.minimal r), Der.naturalBytes (Bytes.minimal s)) := by
  rw [readPair_eq_ok, writePair_naturalBytes, writePair_eq_ok_iff, Bytes.toNat_minimal, Bytes.toNat_minimal]
  simp only [naturalBytes_naturalBytes, true_and]

theorem rawOfDer_of_isStrict {der : Bytes} {r s : Nat} (h : IsStrict r s der) :
    rawOfDer der = rawOfNumbers r s := by
  rw [rawOfDer_eq, readPair_eq_ok_iff.mp h]
  simp only [bind, Except.bind, coordinate_naturalBytes, Bytes.toNat_minimal, rawOfNumbers]
  by_cases hr : r < coordinateLimit
  · by_cases hs : s < coordinateLimit <;> simp [hr, hs, pure, Except.pure]
  · simp only [hr, false_and, if_false]

theorem rawOfNumbers_mapError (r s : Nat) : (rawOfNumbers r s).mapError KeyError.ofSignatureFault =
    if r < coordinateLimit ∧ s < coordinateLimit then .ok (Bytes.ofNat 32 r ++ Bytes.ofNat 32 s)
    else .error (.integerTooLarge (Bytes.width (if r < coordinateLimit then s else r)) 32) := by
  unfold rawOfNumbers
  split <;> rfl

/-- What is read at all is strict. -/
theorem isStrict_of_readPair {der r s : Bytes} (h : readPair der = .ok (r, s)) :
    IsStrict (Bytes.toNat r) (Bytes.toNat s) der :=
  writePair_eq_ok_iff.mp (readPair_eq_ok.mp h).2.2

theorem rawOfDer_of_not_isStrict {der : Bytes} (h : ¬ ∃ r s, IsStrict r s der) :
    ∃ fault, rawOfDer der = .error fault ∧
      KeyError.ofSignatureFault fault = .decode (.signature fault) := by
  rw [rawOfDer_eq]
  cases hread : readPair der with
  | error fault => exact ⟨fault, rfl, decodes_readPair der fault hread⟩
  | ok pair => exact absurd ⟨_, _, isStrict_of_readPair hread⟩ h

end read

/-- A byte string in strict DER is read as its two numbers, in 32 bytes each, or is refused for the first
of them that needs more; any other one is a fault of decoding. No access of the reader is out of range. -/
theorem reading_is_strict (der : Bytes) :
    (∀ r s, IsStrict r s der → (rawOfDer der).mapError KeyError.ofSignatureFault =
      if r < coordinateLimit ∧ s < coordinateLimit then .ok (Bytes.ofNat 32 r ++ Bytes.ofNat 32 s)
      else .error (.integerTooLarge (Bytes.width (if r < coordinateLimit then s else r)) 32)) ∧
    ((¬ ∃ r s, IsStrict r s der) → ∃ fault,
      (rawOfDer der).mapError KeyError.ofSignatureFault = .error (.decode (.signature fault))) ∧
    (Access.rawOfDer der).run = some (rawOfDer der) := by
  refine ⟨fun r s h => ?_, fun h => ?_, congrArg ExceptT.run (Access.rawOfDer_eq der)⟩
  · rw [rawOfDer_of_isStrict h, rawOfNumbers_mapError]
  · obtain ⟨fault, hread, hdecode⟩ := rawOfDer_of_not_isStrict h
    rw [hread]
    exact ⟨fault, congrArg Except.error hdecode⟩

/-- The numbers 1 and 128, of which the second needs a byte for its sign, and the same with a byte behind. -/
theorem reading_of_small_numbers :
    let der : Bytes := [0x30, 0x07, 0x02, 0x01, 0x01, 0x02, 0x02, 0x00, 0x80]
    IsStrict 1 128 der ∧ (rawOfDer der).mapError KeyError.ofSignatureFault =
        .ok (Bytes.ofNat 32 1 ++ Bytes.ofNat 32 128) ∧
      (¬ ∃ r s, IsStrict r s (der ++ [0])) ∧ ∃ fault,
        (rawOfDer (der ++ [0])).mapError KeyError.ofSignatureFault = .error (.decode (.signature fault)) := by
  intro der
  have hstrict : IsStrict 1 128 der := readPair_eq_ok_iff.mpr (by rfl)
  have hnot : ¬ ∃ r s, IsStrict r s (der ++ [0]) := by
    rintro ⟨r, s, h⟩
    have hread : readPair (der ++ [0]) = .error (.trailing 1) := by rfl
    cases hread.symm.trans (readPair_eq_ok_iff.mp h)
  refine ⟨hstrict, ?_, hnot, (reading_is_strict (der ++ [0])).2.1 hnot⟩
  rw [(reading_is_strict der).1 1 128 hstrict, if_pos (by decide)]

end Keyring.EcdsaSignature
