import Keyring.Text.Utf8

set_option autoImplicit false

namespace Keyring.Utf8

theorem encode_injective {s t : List Char} (h : encode s = encode t) : s = t := by
  have hs := decode?_encode s
  rw [h, decode?_encode t] at hs
  exact Option.some.inj hs.symm

theorem encode_ascii {bs : Bytes} (h : ∀ b ∈ bs, b.toNat < 128) :
    encode (bs.map fun b => Char.ofNat b.toNat) = bs := by
  induction bs with
  | nil => rfl
  | cons b bs ih =>
    have hb := h b List.mem_cons_self
    have hc : (Char.ofNat b.toNat).toNat = b.toNat := by
      have hv : b.toNat.isValidChar := .inl (by omega)
      rw [Char.ofNat, dif_pos hv]
      rfl
    rw [List.map_cons, encode_cons, ih fun c hc => h c (List.mem_cons_of_mem b hc), encodeChar, hc, units,
      if_pos hb, List.map_singleton, UInt8.ofNat_toNat]
    rfl

theorem string?_ofString (s : String) : string? (ofString s) = some s := by
  rw [string?, ofString, decode?_encode, Option.map_some, String.ofList_toList]

/-- The part of a text in front of a byte offset. There is none if the text is shorter, or if the offset
is inside of a character. -/
def upTo? : List Char → Nat → Option (List Char)
  | _, 0 => some []
  | [], _ + 1 => none
  | c :: s, n + 1 =>
    if (encodeChar c).length ≤ n + 1 then (upTo? s (n + 1 - (encodeChar c).length)).map (c :: ·) else none

theorem length_encodeChar_pos (c : Char) : 0 < (encodeChar c).length := by
  unfold encodeChar units
  rw [List.length_map]
  split
  · simp
  split
  · simp
  split <;> simp

theorem upTo?_append (s t : List Char) : upTo? (s ++ t) (encode s).length = some s := by
  induction s with
  | nil => cases t <;> rfl
  | cons c s ih =>
    have hc := length_encodeChar_pos c
    have hn : (encode (c :: s)).length = ((encodeChar c).length + (encode s).length - 1) + 1 := by
      rw [encode_cons, List.length_append]
      omega
    rw [List.cons_append, hn, upTo?, if_pos (by omega), show (encodeChar c).length + (encode s).length - 1 + 1 -
      (encodeChar c).length = (encode s).length by omega, ih]
    rfl

end Keyring.Utf8
