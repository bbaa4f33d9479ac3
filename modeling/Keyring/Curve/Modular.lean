set_option autoImplicit false

namespace Keyring.Modular

def power (m base exponent : Nat) : Nat :=
  if exponent = 0 then 1 % m
  else
    let root := power m (base * base % m) (exponent / 2)
    if exponent % 2 = 0 then root else base * root % m
termination_by exponent
decreasing_by omega

/-- Euclid's algorithm on two remainders, each with the multiple of the first argument that it is
modulo `m`; gives the last remainder with its multiple. -/
def euclid (m : Nat) (r s r' s' : Nat) : Nat × Nat :=
  if _h : r' = 0 then (r, s)
  else euclid m r' s' (r % r') ((s + (m - s' % m) * (r / r')) % m)
termination_by r'
decreasing_by exact Nat.mod_lt _ (Nat.pos_of_ne_zero _h)

def inverse? (m a : Nat) : Option Nat :=
  let (gcd, s) := euclid m m 0 (a % m) (1 % m)
  if gcd = 1 then some (s % m) else none

theorem power_eq (m base exponent : Nat) : power m base exponent = Nat.pow base exponent % m := by
  show power m base exponent = base ^ exponent % m
  induction exponent using Nat.strongRecOn generalizing base with
  | ind e ih =>
    rw [power]
    split
    · simp_all
    · rename_i h
      have hr := ih (e / 2) (by omega) (base * base % m)
      simp only [hr]
      have hsq : (base * base % m) ^ (e / 2) % m = base ^ (2 * (e / 2)) % m := by
        rw [← Nat.pow_mod, Nat.pow_mul, Nat.pow_two]
      rw [hsq]
      split
      · rw [show 2 * (e / 2) = e by omega]
      · rw [Nat.mul_mod_mod, ← Nat.pow_succ', show (2 * (e / 2)).succ = e by omega]

end Keyring.Modular
