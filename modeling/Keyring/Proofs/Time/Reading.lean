import Keyring.Proofs.Time.Text
import Mathlib.Data.List.Induction

set_option autoImplicit false

namespace Keyring

theorem Decimal.value_lt (cs : List Char) : value cs < Nat.pow 10 cs.length := by
  induction cs using List.reverseRecOn with
  | nil => decide
  | append_singleton cs c ih =>
    have hdigit : (digit? c).getD 0 < 10 := by
      unfold digit?
      split
      · simp only [Option.getD_some]
        omega
      · decide
    have hpow : Nat.pow 10 (cs ++ [c]).length = Nat.pow 10 cs.length * 10 := by
      rw [List.length_append]
      rfl
    rw [value_append_digit, hpow]
    omega

namespace Time

open Decimal

theorem number?_lt {most n : Nat} {s r : List Char} (h : number? most s = some (n, r)) :
    n < Nat.pow 10 (s.length - r.length) ∧ s.length - r.length ≤ most := by
  unfold number? at h
  simp only at h
  split at h
  · cases h
  · cases h
    have hsome : ((s.takeWhile isDigit).take most).length ≤ s.length :=
      Nat.le_trans (List.length_take_le' _ _) (List.takeWhile_prefix isDigit).length_le
    have hlength : s.length - (s.drop ((s.takeWhile isDigit).take most).length).length =
        ((s.takeWhile isDigit).take most).length := by
      rw [List.length_drop]
      omega
    rw [hlength]
    exact ⟨value_lt _, List.length_take_le _ _⟩

theorem fraction_lt {n count : Nat} (hn : n < Nat.pow 10 count) (hc : count ≤ 9) :
    n * Nat.pow 10 (9 - count) < 1000000000 := by
  have hpos : 0 < Nat.pow 10 (9 - count) := Nat.pow_pos (by decide)
  have hsplit : Nat.pow 10 count * Nat.pow 10 (9 - count) = 1000000000 := by
    show 10 ^ count * 10 ^ (9 - count) = 10 ^ 9
    rw [← Nat.pow_add, Nat.add_sub_cancel' hc]
  rw [← hsplit]
  exact Nat.mul_lt_mul_of_pos_right hn hpos

theorem decimals?_lt {n : Nat} {s r : List Char} (h : decimals? s = some (n, r)) : n < 1000000000 := by
  unfold decimals? at h
  split at h
  · obtain ⟨⟨k, rest⟩, hk, heq⟩ := Option.map_eq_some_iff.mp h
    cases heq
    obtain ⟨hlt, hle⟩ := number?_lt hk
    exact fraction_lt hlt hle
  · cases h
    decide

theorem signedOffset?_minutes {isNegative : Bool} {offset : Int} {s r : List Char}
    (h : signedOffset? isNegative s = some (offset, r)) : offset % 60 = 0 := by
  obtain ⟨⟨hours, s₁⟩, -, h⟩ := Option.bind_eq_some_iff.mp h
  obtain ⟨⟨minutes, s₂⟩, -, h⟩ := Option.bind_eq_some_iff.mp h
  cases h
  split <;> omega

theorem zone?_minutes {offset : Int} {s r : List Char} (h : zone? s = some (offset, r)) : offset % 60 = 0 := by
  unfold zone? at h
  split at h
  · cases h
    rfl
  split at h
  · cases h
    rfl
  · cases h
    rfl
  · exact signedOffset?_minutes h
  · exact signedOffset?_minutes h
  · exact signedOffset?_minutes h
  · cases h

theorem isCivil_of_ofParts? {d : Date} {hour minute second nanos : Nat} {offset : Int} {t : Time}
    (hn : nanos < 1000000000) (ho : offset % 60 = 0) (h : ofParts? d hour minute second nanos offset = some t) :
    t.IsCivil := by
  simp only [ofParts?, Option.ite_none_right_eq_some, Option.some.injEq] at h
  obtain ⟨⟨-, -, -, hsecond, -, -, hcovered⟩, rfl⟩ := h
  refine ⟨hcovered, ?_⟩
  by_cases hleap : second = 60
  · refine .inr ?_
    simp only [hleap, if_true]
    omega
  · refine .inl ?_
    simp only [hleap, if_false]
    omega

theorem isCivil_of_ofText? {s : List Char} {t : Time} (h : ofText? s = some t) : t.IsCivil := by
  obtain ⟨⟨year, s₁⟩, -, h⟩ := Option.bind_eq_some_iff.mp h
  obtain ⟨s₂, -, h⟩ := Option.bind_eq_some_iff.mp h
  obtain ⟨⟨month, s₃⟩, -, h⟩ := Option.bind_eq_some_iff.mp h
  obtain ⟨s₄, -, h⟩ := Option.bind_eq_some_iff.mp h
  obtain ⟨⟨day, s₅⟩, -, h⟩ := Option.bind_eq_some_iff.mp h
  obtain ⟨s₆, -, h⟩ := Option.bind_eq_some_iff.mp h
  obtain ⟨⟨hour, s₇⟩, -, h⟩ := Option.bind_eq_some_iff.mp h
  obtain ⟨s₈, -, h⟩ := Option.bind_eq_some_iff.mp h
  obtain ⟨⟨minute, s₉⟩, -, h⟩ := Option.bind_eq_some_iff.mp h
  obtain ⟨s₁₀, -, h⟩ := Option.bind_eq_some_iff.mp h
  obtain ⟨⟨second, s₁₁⟩, -, h⟩ := Option.bind_eq_some_iff.mp h
  obtain ⟨⟨nanos, s₁₂⟩, hnanos, h⟩ := Option.bind_eq_some_iff.mp h
  obtain ⟨⟨offset, s₁₃⟩, hzone, h⟩ := Option.bind_eq_some_iff.mp h
  simp only at h
  split at h
  · exact isCivil_of_ofParts? (decimals?_lt hnanos) (zone?_minutes hzone) h
  · cases h

end Time
end Keyring
