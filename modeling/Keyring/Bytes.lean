set_option autoImplicit false

namespace Keyring

abbrev Bytes := List UInt8

namespace Bytes

def toNat (bs : Bytes) : Nat := bs.foldl (fun n b => 256 * n + b.toNat) 0

def toNatReversed : Bytes → Nat
  | [] => 0
  | b :: bs => b.toNat + 256 * toNatReversed bs

def ofNatReversed : (width : Nat) → Nat → Bytes
  | 0, _ => []
  | width + 1, n => UInt8.ofNat (n % 256) :: ofNatReversed width (n / 256)

def ofNat (width n : Nat) : Bytes := (ofNatReversed width n).reverse

/-- How many bytes a number needs; zero needs none. -/
def width (n : Nat) : Nat := if n = 0 then 0 else Nat.log2 n / 8 + 1

def minimal (n : Nat) : Bytes := ofNat (width n) n

def magnitude : Bytes → Bytes
  | [] => []
  | b :: bs => if b = 0 then magnitude bs else b :: bs

def xor (a b : Bytes) : Bytes := List.zipWith (· ^^^ ·) a b

@[simp] theorem ofNatReversed_length (w n : Nat) : (ofNatReversed w n).length = w := by
  induction w generalizing n with
  | zero => rfl
  | succ w ih => simp [ofNatReversed, ih]

@[simp] theorem ofNat_length (w n : Nat) : (ofNat w n).length = w := by simp [ofNat]

theorem toNatReversed_ofNatReversed (w n : Nat) :
    toNatReversed (ofNatReversed w n) = n % Nat.pow 256 w := by
  induction w generalizing n with
  | zero => exact (Nat.mod_one n).symm
  | succ w ih =>
    have hb : (UInt8.ofNat (n % 256)).toNat = n % 256 := by simp
    simp only [ofNatReversed, toNatReversed, ih, hb]
    rw [show Nat.pow 256 (w + 1) = Nat.pow 256 w * 256 from rfl, Nat.mul_comm (Nat.pow 256 w) 256,
      Nat.mod_mul]

theorem toNat_append_singleton (bs : Bytes) (b : UInt8) : toNat (bs ++ [b]) = 256 * toNat bs + b.toNat := by
  simp [toNat]

theorem toNat_reverse (bs : Bytes) : toNat bs.reverse = toNatReversed bs := by
  induction bs with
  | nil => rfl
  | cons b bs ih => rw [List.reverse_cons, toNat_append_singleton, ih, toNatReversed]; omega

theorem toNat_ofNat (w n : Nat) : toNat (ofNat w n) = n % Nat.pow 256 w := by
  rw [ofNat, toNat_reverse, toNatReversed_ofNatReversed]

theorem lt_pow_width (n : Nat) : n < Nat.pow 256 (width n) := by
  unfold width
  split
  · simp_all
  · have h : n < 2 ^ (Nat.log2 n + 1) := Nat.lt_log2_self
    have hle : 2 ^ (Nat.log2 n + 1) ≤ 2 ^ (8 * (Nat.log2 n / 8 + 1)) :=
      Nat.pow_le_pow_right (by decide) (by omega)
    rw [Nat.pow_mul] at hle
    exact Nat.lt_of_lt_of_le h hle

@[simp] theorem minimal_length (n : Nat) : (minimal n).length = width n := by simp [minimal]

theorem toNat_minimal (n : Nat) : toNat (minimal n) = n := by
  rw [minimal, toNat_ofNat, Nat.mod_eq_of_lt (lt_pow_width n)]

theorem width_le (n k : Nat) (h : n < 1 <<< (8 * k)) : width n ≤ k := by
  rw [Nat.one_shiftLeft] at h
  unfold width
  split
  · omega
  · rename_i hn
    have hk : k ≠ 0 := by
      intro hk
      subst hk
      simp at h
      omega
    have hlog : Nat.log2 n < 8 * k := (Nat.log2_lt hn).2 h
    omega

theorem magnitude_length_le (bs : Bytes) : (magnitude bs).length ≤ bs.length := by
  induction bs with
  | nil => simp [magnitude]
  | cons b bs ih =>
    unfold magnitude
    split
    · simp only [List.length_cons]; omega
    · simp

end Bytes
end Keyring
