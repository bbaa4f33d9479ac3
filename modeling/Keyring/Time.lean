import Keyring.Duration

/-!
Moments of universal time, in nanoseconds, and the calendar. A moment inside a leap second keeps the
second before it and carries more than 10 ^ 9 nanoseconds, so that moments are ordered by their two
parts.
-/
set_option autoImplicit false

namespace Keyring

structure Time where
  seconds : Int
  nanos : Nat
  deriving DecidableEq, Repr

namespace Time

instance : Inhabited Time := ⟨⟨0, 0⟩⟩

def lt (a b : Time) : Prop := a.seconds < b.seconds ∨ (a.seconds = b.seconds ∧ a.nanos < b.nanos)

instance : LT Time := ⟨lt⟩

instance (a b : Time) : Decidable (a < b) :=
  inferInstanceAs (Decidable (a.seconds < b.seconds ∨ (a.seconds = b.seconds ∧ a.nanos < b.nanos)))

theorem lt_iff (a b : Time) :
    a < b ↔ a.seconds < b.seconds ∨ (a.seconds = b.seconds ∧ a.nanos < b.nanos) := Iff.rfl

theorem lt_irrefl (a : Time) : ¬ a < a := by rw [lt_iff]; omega

theorem lt_trans {a b c : Time} (h : a < b) (k : b < c) : a < c := by
  rw [lt_iff] at *
  omega

theorem lt_trichotomy (a b : Time) : a < b ∨ a = b ∨ b < a := by
  cases a
  cases b
  simp only [lt_iff, Time.mk.injEq]
  omega

/-- A day of the calendar. The year before the year one is the year zero. -/
structure Date where
  year : Int
  month : Int
  day : Int
  deriving DecidableEq, Repr

/-- Days from the first of January 1970. A year is counted from March, so that the leap day is its
last, and 400 years have 146097 days. -/
def Date.toDays (d : Date) : Int :=
  let year := if d.month ≤ 2 then d.year - 1 else d.year
  let era := year / 400
  let yearOfEra := year - era * 400
  let month := if d.month > 2 then d.month - 3 else d.month + 9
  let dayOfYear := (153 * month + 2) / 5 + d.day - 1
  let dayOfEra := yearOfEra * 365 + yearOfEra / 4 - yearOfEra / 100 + dayOfYear
  era * 146097 + dayOfEra - 719468

def Date.ofDays (days : Int) : Date :=
  let days := days + 719468
  let era := days / 146097
  let dayOfEra := days - era * 146097
  let yearOfEra := (dayOfEra - dayOfEra / 1460 + dayOfEra / 36524 - dayOfEra / 146096) / 365
  let dayOfYear := dayOfEra - (365 * yearOfEra + yearOfEra / 4 - yearOfEra / 100)
  let month := (5 * dayOfYear + 2) / 153
  let day := dayOfYear - (153 * month + 2) / 5 + 1
  let year := yearOfEra + era * 400
  if month < 10 then ⟨year, month + 3, day⟩ else ⟨year + 1, month - 9, day⟩

/-- A date exists when the number of its day names it again. -/
def Date.Exists (d : Date) : Prop := Date.ofDays d.toDays = d

instance (d : Date) : Decidable d.Exists := inferInstanceAs (Decidable (_ = _))

theorem Date.yearStart_le {doe yoe : Int} (h0 : 0 ≤ doe ∧ doe < 146097)
    (hy : (doe - doe / 1460 + doe / 36524 - doe / 146096) / 365 = yoe) :
    365 * yoe + yoe / 4 - yoe / 100 ≤ doe := by
  have hd : doe / 36524 = 0 ∨ doe / 36524 = 1 ∨ doe / 36524 = 2 ∨ doe / 36524 = 3 ∨
      doe / 36524 = 4 := by omega
  have hh : yoe / 100 = 0 ∨ yoe / 100 = 1 ∨ yoe / 100 = 2 ∨ yoe / 100 = 3 := by omega
  have hr : yoe % 4 = 0 ∨ yoe % 4 = 1 ∨ yoe % 4 = 2 ∨ yoe % 4 = 3 := by omega
  rcases hd with hd | hd | hd | hd | hd <;> rcases hh with hh | hh | hh | hh <;> rw [hd] at hy <;>
    rw [hh] <;> rcases hr with hr | hr | hr | hr <;> omega

theorem Date.toDays_ofDays (n : Int) : (Date.ofDays n).toDays = n := by
  simp only [Date.ofDays]
  generalize hz : n + 719468 = z
  generalize he : z / 146097 = era
  generalize hd : z - era * 146097 = doe
  generalize hy : (doe - doe / 1460 + doe / 36524 - doe / 146096) / 365 = yoe
  have h0 : 0 ≤ doe ∧ doe < 146097 := by omega
  have h1 : 0 ≤ yoe ∧ yoe < 400 := by omega
  have h2 := Date.yearStart_le h0 hy
  have h4 : doe ≤ 365 * yoe + yoe / 4 - yoe / 100 + 366 := by omega
  clear hy
  generalize hm : (5 * (doe - (365 * yoe + yoe / 4 - yoe / 100)) + 2) / 153 = mp
  have h3 : 0 ≤ mp ∧ mp ≤ 11 := by omega
  have he' : (yoe + era * 400) / 400 = era := by omega
  have hx : (yoe + era * 400 + 1 - 1) / 400 = era := by omega
  have hyy : yoe + era * 400 - era * 400 = yoe := by omega
  have hyx : yoe + era * 400 + 1 - 1 - era * 400 = yoe := by omega
  split
  · rename_i hlt
    simp only [Date.toDays]
    rw [if_neg (by omega), if_pos (by omega), he', hyy, show mp + 3 - 3 = mp by omega]
    omega
  · rename_i hge
    simp only [Date.toDays]
    rw [if_pos (by omega), if_neg (by omega), hx, hyx, show mp - 9 + 9 = mp by omega]
    omega

theorem Date.exists_ofDays (n : Int) : (Date.ofDays n).Exists := by
  rw [Date.Exists, Date.toDays_ofDays]

def firstDay : Int := Date.toDays ⟨-262143, 1, 1⟩
def lastDay : Int := Date.toDays ⟨262142, 12, 31⟩

def covers (day : Int) : Bool := firstDay ≤ day && day ≤ lastDay

def add? (t : Time) (d : Duration) : Option Time :=
  let nanos := t.nanos + d.nanos
  let u : Time := ⟨t.seconds + (d.seconds : Int) + ((nanos / 1000000000 : Nat) : Int),
    nanos % 1000000000⟩
  if covers (u.seconds / 86400) then some u else none

/-- The greatest span that can be added to a moment at all: 2 ^ 63 - 1 milliseconds. -/
def greatestSpan : Nat := 9223372036854775807000000

end Time
end Keyring
