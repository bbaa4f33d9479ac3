import Keyring.Bytes

set_option autoImplicit false

namespace Keyring.Bytes

section magnitude

@[simp] theorem magnitude_replicate_append (k : Nat) (bs : Bytes) :
    magnitude (List.replicate k 0 ++ bs) = magnitude bs := by
  induction k with
  | zero => rfl
  | succ k ih => simp [List.replicate_succ, magnitude, ih]

theorem replicate_append_magnitude (bs : Bytes) :
    List.replicate (bs.length - (magnitude bs).length) 0 ++ magnitude bs = bs := by
  induction bs with
  | nil => rfl
  | cons b bs ih =>
    have hle := magnitude_length_le bs
    by_cases hb : b = 0
    · subst hb
      rw [magnitude, if_pos rfl, List.length_cons, Nat.succ_sub hle, List.replicate_succ,
        List.cons_append, ih]
    · simp [magnitude, hb]

theorem magnitude_cons_of_ne {b : UInt8} (bs : Bytes) (h : b ≠ 0) : magnitude (b :: bs) = b :: bs := by
  simp [magnitude, h]

theorem head_magnitude_ne (bs : Bytes) {b : UInt8} {rest : Bytes} (h : magnitude bs = b :: rest) :
    b ≠ 0 := by
  induction bs with
  | nil => simp [magnitude] at h
  | cons c cs ih =>
    by_cases hc : c = 0
    · simp only [magnitude, hc, if_true] at h
      exact ih h
    · simp only [magnitude, hc, if_false, List.cons.injEq] at h
      exact h.1 ▸ hc

theorem toNat_magnitude (bs : Bytes) : toNat (magnitude bs) = toNat bs := by
  induction bs with
  | nil => rfl
  | cons b bs ih =>
    unfold magnitude
    split
    · rename_i hb
      rw [ih, hb]
      simp [toNat]
    · rfl

end magnitude

theorem toNatReversed_lt (bs : Bytes) : toNatReversed bs < Nat.pow 256 bs.length := by
  induction bs with
  | nil => exact Nat.zero_lt_one
  | cons b bs ih =>
    have hb := b.toNat_lt
    rw [toNatReversed, List.length_cons, show Nat.pow 256 (bs.length + 1) = Nat.pow 256 bs.length * 256 from rfl]
    omega

theorem toNat_lt (bs : Bytes) : toNat bs < Nat.pow 256 bs.length := by
  have h := toNatReversed_lt bs.reverse
  rwa [← toNat_reverse, List.reverse_reverse, List.length_reverse] at h

theorem ofNatReversed_toNatReversed (bs : Bytes) : ofNatReversed bs.length (toNatReversed bs) = bs := by
  induction bs with
  | nil => rfl
  | cons b bs ih =>
    have hb := b.toNat_lt
    rw [List.length_cons, toNatReversed, ofNatReversed, Nat.add_mul_mod_self_left, Nat.mod_eq_of_lt hb,
      UInt8.ofNat_toNat, show (b.toNat + 256 * toNatReversed bs) / 256 = toNatReversed bs by omega, ih]

theorem ofNat_toNat (bs : Bytes) : ofNat bs.length (toNat bs) = bs := by
  have h := ofNatReversed_toNatReversed bs.reverse
  rw [List.length_reverse, ← toNat_reverse, List.reverse_reverse] at h
  rw [ofNat, h, List.reverse_reverse]

theorem eq_of_toNat_eq {bs bs' : Bytes} (hlen : bs.length = bs'.length) (h : toNat bs = toNat bs') :
    bs = bs' := by rw [← ofNat_toNat bs, ← ofNat_toNat bs', hlen, h]

theorem toNat_cons (b : UInt8) (bs : Bytes) :
    toNat (b :: bs) = b.toNat * Nat.pow 256 bs.length + toNat bs := by
  have hreversed (cs : Bytes) :
      toNatReversed (cs ++ [b]) = b.toNat * Nat.pow 256 cs.length + toNatReversed cs := by
    induction cs with
    | nil => simp [toNatReversed]
    | cons c cs ih =>
      have hpow : b.toNat * Nat.pow 256 (cs.length + 1) = 256 * (b.toNat * Nat.pow 256 cs.length) := by
        rw [show Nat.pow 256 (cs.length + 1) = Nat.pow 256 cs.length * 256 from rfl, ← Nat.mul_assoc,
          Nat.mul_comm]
      rw [List.cons_append, toNatReversed, ih, toNatReversed, List.length_cons, hpow]
      omega
  have h := hreversed bs.reverse
  rwa [← toNat_reverse, ← toNat_reverse, List.reverse_append, List.reverse_reverse, List.length_reverse,
    List.reverse_singleton, List.singleton_append] at h

section width

theorem width_mono {m n : Nat} (h : m ≤ n) : width m ≤ width n := by
  refine width_le m _ ?_
  rw [Nat.one_shiftLeft, Nat.pow_mul]
  exact Nat.lt_of_le_of_lt h (lt_pow_width n)

theorem width_toNat_le (bs : Bytes) : width (toNat bs) ≤ bs.length := by
  refine width_le _ _ ?_
  rw [Nat.one_shiftLeft, Nat.pow_mul]
  exact toNat_lt bs

theorem width_le_iff {n k : Nat} : width n ≤ k ↔ n < Nat.pow 256 k := by
  constructor
  · intro h
    exact Nat.lt_of_lt_of_le (lt_pow_width n) (Nat.pow_le_pow_right (by decide) h)
  · intro h
    refine width_le n k ?_
    rw [Nat.one_shiftLeft, Nat.pow_mul]
    exact h

theorem width_eq_succ {n k : Nat} (h : Nat.pow 256 k ≤ n) (h' : n < Nat.pow 256 (k + 1)) :
    width n = k + 1 :=
  Nat.le_antisymm (width_le_iff.mpr h') (Nat.lt_of_not_le fun hle => Nat.not_lt.mpr h (width_le_iff.mp hle))

theorem pow_le_toNat {b : UInt8} (bs : Bytes) (h : b ≠ 0) : Nat.pow 256 bs.length ≤ toNat (b :: bs) := by
  have hb : 0 < b.toNat := Nat.pos_of_ne_zero fun h0 => h (UInt8.toNat_inj.mp h0)
  rw [toNat_cons]
  exact Nat.le_trans (Nat.le_mul_of_pos_left _ hb) (Nat.le_add_right _ _)

theorem head_minimal (n : Nat) : (minimal n).head? ≠ some 0 := by
  cases h : minimal n with
  | nil => simp
  | cons b bs =>
    rw [List.head?_cons, ne_eq, Option.some.injEq]
    rintro rfl
    have hvalue : toNat bs = n := by
      rw [← toNat_minimal n, h]
      simp [toNat]
    have hwidth : bs.length + 1 = width n := by rw [← minimal_length n, h, List.length_cons]
    have hle : width n ≤ bs.length := hvalue ▸ width_toNat_le bs
    omega

theorem magnitude_eq_minimal (bs : Bytes) : magnitude bs = minimal (toNat bs) := by
  refine eq_of_toNat_eq ?_ (by rw [toNat_magnitude, toNat_minimal])
  rw [minimal_length]
  refine Nat.le_antisymm ?_ (toNat_magnitude bs ▸ width_toNat_le (magnitude bs))
  cases h : magnitude bs with
  | nil => exact Nat.zero_le _
  | cons b rest =>
    -- the first byte is not zero, so that the bytes behind it are too few for the number
    have hpow := pow_le_toNat rest (head_magnitude_ne bs h)
    rw [← h, toNat_magnitude] at hpow
    rw [List.length_cons]
    exact Nat.lt_of_not_le fun hle => Nat.not_lt.mpr hpow (width_le_iff.mp hle)

theorem magnitude_length (bs : Bytes) : (magnitude bs).length = width (toNat bs) := by
  rw [magnitude_eq_minimal, minimal_length]

theorem replicate_append_magnitude_eq_ofNat {k : Nat} {bs : Bytes} (h : (magnitude bs).length ≤ k) :
    List.replicate (k - (magnitude bs).length) 0 ++ magnitude bs = ofNat k (toNat bs) := by
  have hlt : toNat bs < Nat.pow 256 k := width_le_iff.mp (magnitude_length bs ▸ h)
  refine eq_of_toNat_eq ?_ ?_
  · rw [List.length_append, List.length_replicate, ofNat_length]
    omega
  · rw [toNat_ofNat, Nat.mod_eq_of_lt hlt, ← toNat_magnitude, magnitude_replicate_append, toNat_magnitude,
      toNat_magnitude]

end width

end Keyring.Bytes
