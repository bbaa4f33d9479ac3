set_option autoImplicit false

namespace Keyring.Decimal

def digitChar (d : Nat) : Char := Char.ofNat (48 + d % 10)

def digits : (count : Nat) → Nat → List Char
  | 0, _ => []
  | count + 1, n => digits count (n / 10) ++ [digitChar n]

def count (n : Nat) : Nat := if n < 10 then 1 else count (n / 10) + 1
termination_by n
decreasing_by omega

def text (n : Nat) : List Char := digits (count n) n

def padded (width n : Nat) : List Char := digits (max width (count n)) n

def signed : Int → List Char
  | .ofNat n => text n
  | .negSucc n => '-' :: text (n + 1)

def digit? (c : Char) : Option Nat :=
  if 48 ≤ c.toNat ∧ c.toNat ≤ 57 then some (c.toNat - 48) else none

def isDigit (c : Char) : Bool := (digit? c).isSome

def value (cs : List Char) : Nat := cs.foldl (fun n c => 10 * n + (digit? c).getD 0) 0

theorem digit?_digitChar (d : Nat) : digit? (digitChar d) = some (d % 10) := by
  have h : d % 10 < 10 := Nat.mod_lt _ (by decide)
  unfold digitChar
  generalize d % 10 = k at h
  match k, h with
  | 0, _ | 1, _ | 2, _ | 3, _ | 4, _ | 5, _ | 6, _ | 7, _ | 8, _ | 9, _ => decide
  | _ + 10, h => omega

theorem value_append_digit (cs : List Char) (c : Char) :
    value (cs ++ [c]) = 10 * value cs + (digit? c).getD 0 := by simp [value]

theorem value_digits (k n : Nat) : value (digits k n) = n % Nat.pow 10 k := by
  induction k generalizing n with
  | zero => exact (Nat.mod_one n).symm
  | succ k ih =>
    rw [digits, value_append_digit, ih, digit?_digitChar, Option.getD_some,
      show Nat.pow 10 (k + 1) = Nat.pow 10 k * 10 from rfl, Nat.mul_comm (Nat.pow 10 k) 10, Nat.mod_mul]
    omega

theorem lt_pow_count (n : Nat) : n < Nat.pow 10 (count n) := by
  induction n using Nat.strongRecOn with
  | ind n ih =>
    rw [count]
    split
    · simpa using ‹n < 10›
    · have h := ih (n / 10) (by omega)
      rw [show Nat.pow 10 (count (n / 10) + 1) = Nat.pow 10 (count (n / 10)) * 10 from rfl]
      omega

theorem value_text (n : Nat) : value (text n) = n := by
  rw [text, value_digits, Nat.mod_eq_of_lt (lt_pow_count n)]

theorem digits_length (k n : Nat) : (digits k n).length = k := by
  induction k generalizing n with
  | zero => rfl
  | succ k ih => simp [digits, ih]

end Keyring.Decimal
