import Keyring.Proofs.Json.Reading
import Keyring.Time.Text

set_option autoImplicit false

namespace Keyring

namespace Decimal

theorem count_le {k n : Nat} (hk : 0 < k) (h : n < Nat.pow 10 k) : count n ≤ k := by
  induction k generalizing n with
  | zero => omega
  | succ k ih =>
    rw [count]
    split
    · omega
    · rename_i hn
      have hpow : Nat.pow 10 (k + 1) = Nat.pow 10 k * 10 := rfl
      have hpos : 0 < k := by
        rw [Nat.pos_iff_ne_zero]
        rintro rfl
        exact hn h
      have := ih hpos (n := n / 10) (by omega)
      omega

theorem padded_of_lt {k n : Nat} (hk : 0 < k) (h : n < Nat.pow 10 k) : padded k n = digits k n := by
  rw [padded, Nat.max_eq_left (count_le hk h)]

theorem isDigit_of_mem_digits {k n : Nat} {c : Char} (h : c ∈ digits k n) : isDigit c = true := by
  induction k generalizing n with
  | zero => cases h
  | succ k ih =>
    rw [digits, List.mem_append, List.mem_singleton] at h
    rcases h with h | rfl
    · exact ih h
    · exact isDigit_digitChar n

theorem isBlank_of_isDigit {c : Char} (h : isDigit c = true) : Text.isBlank c = false := by
  obtain ⟨d, hd⟩ := Option.isSome_iff_exists.mp h
  unfold digit? at hd
  split at hd
  · simp only [Text.isBlank, Text.blankRanges, List.any_cons, List.any_nil, Bool.or_eq_false_iff, Bool.and_eq_false_iff,
      decide_eq_false_iff_not, and_true]
    omega
  · cases hd

end Decimal

namespace Time

open Decimal

def NoDigit (rest : List Char) : Prop := ∀ c, rest.head? = some c → isDigit c = false

theorem noDigit_cons {c : Char} (h : isDigit c = false) (rest : List Char) : NoDigit (c :: rest) := by
  intro c' hc
  cases hc
  exact h

theorem takeWhile_noDigit {rest : List Char} (h : NoDigit rest) : rest.takeWhile isDigit = [] := by
  cases rest with
  | nil => rfl
  | cons c rest => simp [h c rfl]

theorem dropWhile_noDigit {rest : List Char} (h : NoDigit rest) : rest.dropWhile isDigit = rest := by
  cases rest with
  | nil => rfl
  | cons c rest => simp [h c rfl]

theorem number?_digits {most k n : Nat} {rest : List Char} (hk : 0 < k) (hmost : k ≤ most) (h : NoDigit rest) :
    number? most (digits k n ++ rest) = some (n % Nat.pow 10 k, rest) := by
  have hlength := digits_length k n
  have hwhile : (digits k n ++ rest).takeWhile isDigit = digits k n := by
    rw [List.takeWhile_append_of_pos fun c hc => isDigit_of_mem_digits hc, takeWhile_noDigit h, List.append_nil]
  have hne : digits k n ≠ [] := List.ne_nil_of_length_pos (by omega)
  have htake : (digits k n).take most = digits k n := List.take_of_length_le (by omega)
  simp [number?, hwhile, htake, hne, value_digits]

theorem number?_padded {most k n : Nat} {rest : List Char} (hk : 0 < k) (hmost : max k (count n) ≤ most)
    (h : NoDigit rest) : number? most (padded k n ++ rest) = some (n, rest) := by
  have hlt : n < Nat.pow 10 (max k (count n)) :=
    Nat.lt_of_lt_of_le (lt_pow_count n) (Nat.pow_le_pow_right (by decide) (Nat.le_max_right k (count n)))
  rw [padded, number?_digits (by omega) hmost h, Nat.mod_eq_of_lt hlt]

theorem padded_head {k n : Nat} (hk : 0 < k) : ∃ c cs, padded k n = c :: cs ∧ isDigit c = true := by
  cases h : padded k n with
  | nil =>
    have hlength := digits_length (max k (count n)) n
    rw [padded] at h
    rw [h, List.length_nil] at hlength
    omega
  | cons c cs => exact ⟨c, cs, rfl, isDigit_of_mem_digits (h ▸ List.mem_cons_self)⟩

theorem skipBlank_cons {c : Char} (h : Text.isBlank c = false) (rest : List Char) :
    Text.skipBlank (c :: rest) = c :: rest := by
  simp [Text.skipBlank, h]

theorem field?_padded {n : Nat} {rest : List Char} (hn : n < 100) (h : NoDigit rest) :
    field? 2 (padded 2 n ++ rest) = some (n, rest) := by
  obtain ⟨c, cs, hc, hdigit⟩ := @padded_head 2 n (by decide)
  have hcount : count n ≤ 2 := count_le (by decide) hn
  have hnumber := @number?_padded 2 2 n _ (by decide) (by omega) h
  rw [hc, List.cons_append] at hnumber ⊢
  rw [field?, skipBlank_cons (isBlank_of_isDigit hdigit), hnumber]

theorem mark?_cons {c : Char} (h : Text.isBlank c = false) (rest : List Char) : mark? c (c :: rest) = some rest := by
  simp [mark?, skipBlank_cons h]

theorem year?_digit {c : Char} (h : isDigit c = true) (cs : List Char) :
    year? (c :: cs) = (number? 4 (c :: cs)).map fun (n, r) => ((n : Int), r) := by
  have hblank := skipBlank_cons (isBlank_of_isDigit h) cs
  have hminus : c ≠ '-' := by
    rintro rfl
    cases h
  have hplus : c ≠ '+' := by
    rintro rfl
    cases h
  rw [year?, hblank]
  split
  · simp_all
  · simp_all
  · rfl

theorem year?_yearText (year : Int) {rest : List Char} (h : NoDigit rest) :
    year? (yearText year ++ rest) = some (year, rest) := by
  have hsigned (n : Nat) : number? (padded 4 n ++ rest).length (padded 4 n ++ rest) = some (n, rest) :=
    number?_padded (by decide) (by simp [padded, digits_length]) h
  unfold yearText
  split
  · rename_i hrange
    obtain ⟨c, cs, hc, hdigit⟩ := @padded_head 4 year.toNat (by decide)
    have hcount : count year.toNat ≤ 4 := count_le (by decide) (by show _ < 10000; omega)
    have hnumber := @number?_padded 4 4 year.toNat _ (by decide) (by omega) h
    rw [hc, List.cons_append] at hnumber ⊢
    rw [year?_digit hdigit, hnumber]
    simp [Int.toNat_of_nonneg hrange.1]
  split
  · have hminus : year? ('-' :: (padded 4 year.natAbs ++ rest)) = some (-(year.natAbs : Int), rest) := by
      simp only [year?, skipBlank_cons (c := '-') (by decide), hsigned, Option.map_some]
    rw [List.cons_append, hminus]
    congr 2
    omega
  · have hplus : year? ('+' :: (padded 4 year.natAbs ++ rest)) = some ((year.natAbs : Int), rest) := by
      simp only [year?, skipBlank_cons (c := '+') (by decide), hsigned, Option.map_some]
    rw [List.cons_append, hplus]
    congr 2
    omega

theorem decimals?_digits {k n : Nat} {rest : List Char} (hk : 0 < k) (hk9 : k ≤ 9) (hn : n < Nat.pow 10 k)
    (h : NoDigit rest) : decimals? ('.' :: (padded k n ++ rest)) = some (n * Nat.pow 10 (9 - k), rest) := by
  have hlength : (digits k n ++ rest).length - rest.length = k := by
    rw [List.length_append, digits_length]
    omega
  rw [padded_of_lt hk hn, decimals?, number?_digits hk hk9 h]
  simp only [Option.map_some, hlength, dropWhile_noDigit h, Nat.mod_eq_of_lt hn]

theorem decimals?_decimalsText {nanos : Nat} (hn : nanos < 1000000000) (rest : List Char) :
    decimals? (decimalsText nanos ++ 'Z' :: rest) = some (nanos, 'Z' :: rest) := by
  have hrest : NoDigit ('Z' :: rest) := noDigit_cons (by decide) rest
  unfold decimalsText
  split
  · rename_i h0
    rw [h0]
    rfl
  split
  · rw [List.cons_append, decimals?_digits (by decide) (by decide) (by show _ < 1000; omega) hrest]
    rw [show Nat.pow 10 (9 - 3) = 1000000 from rfl]
    congr 2
    omega
  split
  · rw [List.cons_append, decimals?_digits (by decide) (by decide) (by show _ < 1000000; omega) hrest]
    rw [show Nat.pow 10 (9 - 6) = 1000 from rfl]
    congr 2
    omega
  · rw [List.cons_append, decimals?_digits (by decide) (by decide) hn hrest]
    rw [show Nat.pow 10 (9 - 9) = 1 from rfl, Nat.mul_one]

theorem month_day_ofDays (n : Int) : (1 ≤ (Date.ofDays n).month ∧ (Date.ofDays n).month ≤ 12) ∧
    1 ≤ (Date.ofDays n).day ∧ (Date.ofDays n).day ≤ 31 := by
  simp only [Date.ofDays]
  generalize n + 719468 = z
  generalize hera : z / 146097 = era
  generalize hdoe : z - era * 146097 = doe
  generalize hyoe : (doe - doe / 1460 + doe / 36524 - doe / 146096) / 365 = yoe
  have hstart := Date.yearStart_le (by omega) hyoe
  have hend : doe ≤ 365 * yoe + yoe / 4 - yoe / 100 + 366 := by omega
  clear hyoe
  generalize hdoy : doe - (365 * yoe + yoe / 4 - yoe / 100) = doy
  have hrange : 0 ≤ doy ∧ doy ≤ 366 := by omega
  clear hstart hend hdoy
  split <;> simp only <;> omega

/-- A moment of the calendar. Nanoseconds beyond a second are those of a leap second, which ends a minute. -/
structure IsCivil (t : Time) : Prop where
  covered : covers (t.seconds / 86400) = true
  nanos : t.nanos < 1000000000 ∨ t.nanos < 2000000000 ∧ t.seconds % 60 = 59

theorem ofParts?_parts {t : Time} (h : t.IsCivil) : ofParts? t.date (t.secondOfDay / 3600) (t.secondOfDay / 60 % 60)
    (t.secondOfDay % 60 + t.nanos / 1000000000) (t.nanos % 1000000000) 0 = some t := by
  have hday : t.date.toDays = t.seconds / 86400 := Date.toDays_ofDays _
  have hsecond : (t.secondOfDay : Int) = t.seconds % 86400 := Int.toNat_of_nonneg (by omega)
  have hnanos := h.nanos
  -- second 60 is shown just inside a leap second
  have hleap : (if t.secondOfDay % 60 + t.nanos / 1000000000 = 60 then 1 else 0) = t.nanos / 1000000000 := by
    split <;> omega
  have hseconds : t.seconds / 86400 * 86400 + ((t.secondOfDay / 3600 * 3600 + t.secondOfDay / 60 % 60 * 60 +
      (t.secondOfDay % 60 + t.nanos / 1000000000 - t.nanos / 1000000000) : Nat) : Int) - 0 = t.seconds := by
    omega
  have hexists : t.date.Exists := Date.exists_ofDays _
  simp only [ofParts?, hday, hleap, hseconds]
  rw [if_pos ⟨hexists, by omega, by omega, by omega, by decide, h.covered, h.covered⟩,
    Nat.mul_comm, Nat.mod_add_div]

theorem noDigit_decimalsText (nanos : Nat) (rest : List Char) : NoDigit (decimalsText nanos ++ 'Z' :: rest) := by
  unfold decimalsText
  split
  · exact noDigit_cons (by decide) _
  split
  · exact noDigit_cons (by decide) _
  split <;> exact noDigit_cons (by decide) _

theorem ofText?_text {t : Time} (h : t.IsCivil) : ofText? t.text = some t := by
  have hday : t.secondOfDay < 86400 := by
    unfold secondOfDay
    omega
  obtain ⟨hmonth, hdate⟩ := month_day_ofDays (t.seconds / 86400)
  have hnanos := h.nanos
  have hzone : zone? (Text.skipBlank ['Z']) = some (0, []) := by decide
  obtain ⟨⟨hmonthlt, hmontheq⟩, hdaylt, hdayeq⟩ :
      (t.date.month.toNat < 100 ∧ ((t.date.month.toNat : Nat) : Int) = t.date.month) ∧
        t.date.day.toNat < 100 ∧ ((t.date.day.toNat : Nat) : Int) = t.date.day := by
    unfold date
    omega
  rw [text]
  simp only [List.append_assoc, List.cons_append]
  refine Option.bind_eq_some_iff.mpr ⟨_, year?_yearText _ (noDigit_cons (by decide) _), ?_⟩
  refine Option.bind_eq_some_iff.mpr ⟨_, mark?_cons (by decide) _, ?_⟩
  refine Option.bind_eq_some_iff.mpr ⟨_, field?_padded hmonthlt (noDigit_cons (by decide) _), ?_⟩
  refine Option.bind_eq_some_iff.mpr ⟨_, mark?_cons (by decide) _, ?_⟩
  refine Option.bind_eq_some_iff.mpr ⟨_, field?_padded hdaylt (noDigit_cons (by decide) _), ?_⟩
  refine Option.bind_eq_some_iff.mpr ⟨_, rfl, ?_⟩
  refine Option.bind_eq_some_iff.mpr ⟨_, field?_padded (by omega) (noDigit_cons (by decide) _), ?_⟩
  refine Option.bind_eq_some_iff.mpr ⟨_, mark?_cons (by decide) _, ?_⟩
  refine Option.bind_eq_some_iff.mpr ⟨_, field?_padded (by omega) (noDigit_cons (by decide) _), ?_⟩
  refine Option.bind_eq_some_iff.mpr ⟨_, mark?_cons (by decide) _, ?_⟩
  refine Option.bind_eq_some_iff.mpr ⟨_, field?_padded (by omega) (noDigit_decimalsText _ _), ?_⟩
  refine Option.bind_eq_some_iff.mpr ⟨_, decimals?_decimalsText (Nat.mod_lt _ (by decide)) [], ?_⟩
  refine Option.bind_eq_some_iff.mpr ⟨_, hzone, ?_⟩
  simp only [hmontheq, hdayeq]
  exact ofParts?_parts h

end Time
end Keyring
