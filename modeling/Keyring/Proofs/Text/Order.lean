import Keyring.Proofs.Text.Utf8
import Mathlib.Data.List.Lex
import Mathlib.Tactic.SplitIfs

set_option autoImplicit false

namespace Keyring.Utf8

theorem lt_iff_map_toNat {u v : Bytes} : u < v ↔ u.map UInt8.toNat < v.map UInt8.toNat := by
  induction u generalizing v with
  | nil => cases v <;> simp [List.nil_lt_cons, List.not_lt_nil]
  | cons a u ih =>
    cases v with
    | nil => simp [List.not_lt_nil]
    | cons b v => simp only [List.map_cons, List.cons_lt_cons_iff, UInt8.lt_iff_toNat_lt, UInt8.toNat_inj, ih]

theorem units_lt {n : Nat} (h : n < 0x110000) : ∀ b ∈ units n, b < 256 := by
  unfold units
  split_ifs <;> simp <;> omega

theorem map_toNat_encodeChar (c : Char) : (encodeChar c).map UInt8.toNat = units c.toNat := by
  rw [encodeChar, List.map_map]
  exact (List.map_congr_left fun b hb => toNat_ofNat_lt b (units_lt (toNat_lt c) b hb)).trans (List.map_id _)

/-- The first byte tells the greater code point, or else a byte that carries its bits does. -/
theorem units_append_lt {n m : Nat} (h : n < m) (u v : List Nat) : units n ++ u < units m ++ v := by
  unfold units
  split_ifs <;> simp [List.cons_lt_cons_iff] <;> omega

theorem encodeChar_append_lt {c d : Char} (h : c < d) (u v : Bytes) :
    encodeChar c ++ u < encodeChar d ++ v := by
  rw [lt_iff_map_toNat, List.map_append, List.map_append, map_toNat_encodeChar, map_toNat_encodeChar]
  exact units_append_lt h _ _

theorem encode_lt {s t : List Char} (h : s < t) : encode s < encode t := by
  induction h with
  | @nil c t =>
    obtain ⟨b, bs, hb⟩ := List.exists_cons_of_length_pos (length_encodeChar_pos c)
    rw [encode_cons, hb]
    exact List.nil_lt_cons _ _
  | rel hcd => 
    rw [encode_cons, encode_cons]
    exact encodeChar_append_lt hcd _ _
  | @cons c s t _ ih =>
    rw [encode_cons, encode_cons]
    exact List.Lex.append_left _ ih (encodeChar c)

theorem encode_lt_iff {s t : List Char} : encode s < encode t ↔ s < t := by
  refine ⟨fun h => ?_, encode_lt⟩
  by_contra hle
  rcases List.le_iff_lt_or_eq.mp (List.not_lt.mp hle) with hlt | rfl
  · exact List.lt_asymm h (encode_lt hlt)
  · exact List.lt_irrefl _ h

theorem ofString_lt_iff {s t : String} : ofString s < ofString t ↔ s < t := encode_lt_iff

end Keyring.Utf8
