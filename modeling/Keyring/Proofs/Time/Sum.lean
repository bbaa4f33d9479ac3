import Keyring.Time

/-!
Moments on one line of nanoseconds. A span is added to a moment exactly, and the sum is refused exactly when
the calendar does not cover it. No span between two moments of the calendar is too long to be added.
-/
set_option autoImplicit false

namespace Keyring.Time

def toNanos (t : Time) : Int := t.seconds * 1000000000 + t.nanos

/-- A moment of the calendar outside leap seconds. -/
structure Representable (t : Time) : Prop where
  covered : covers (t.seconds / 86400) = true
  nanos_lt : t.nanos < 1000000000

instance (t : Time) : Decidable t.Representable :=
  decidable_of_iff (covers (t.seconds / 86400) = true ∧ t.nanos < 1000000000)
    ⟨fun h => ⟨h.1, h.2⟩, fun h => ⟨h.covered, h.nanos_lt⟩⟩

variable {t u : Time} {d : Duration}

theorem eq_of_toNanos_eq (ht : t.nanos < 1000000000) (hu : u.nanos < 1000000000)
    (h : t.toNanos = u.toNanos) : t = u := by
  cases t
  cases u
  simp only [toNanos, Time.mk.injEq] at *
  omega

theorem Representable.lt_iff_toNanos_lt (ht : t.Representable) (hu : u.Representable) :
    t < u ↔ t.toNanos < u.toNanos := by
  have := ht.nanos_lt
  have := hu.nanos_lt
  rw [Time.lt_iff]
  unfold toNanos
  omega

theorem Representable.bounds (h : t.Representable) :
    -8334601228800000000000 ≤ t.toNanos ∧ t.toNanos < 8210266876800000000000 := by
  have hday := h.covered
  have hnanos := h.nanos_lt
  have hfirst : firstDay = -96465292 := by decide
  have hlast : lastDay = 95026236 := by decide
  simp only [covers, hfirst, hlast, Bool.and_eq_true, decide_eq_true_eq] at hday
  unfold toNanos
  omega

theorem Representable.le_greatestSpan (ht : t.Representable) (hu : u.Representable)
    (h : u.toNanos = t.toNanos + d.toNanos) : d.toNanos ≤ greatestSpan := by
  have := ht.bounds
  have := hu.bounds
  unfold greatestSpan
  omega

theorem add?_eq_some_iff : t.add? d = some u ↔ u.Representable ∧ u.toNanos = t.toNanos + d.toNanos := by
  have hcarry : (t.nanos + d.nanos) / 1000000000 * 1000000000 + (t.nanos + d.nanos) % 1000000000 =
      t.nanos + d.nanos := Nat.div_add_mod' _ _
  have hmod : (t.nanos + d.nanos) % 1000000000 < 1000000000 := Nat.mod_lt _ (by decide)
  unfold add?
  dsimp only
  generalize (t.nanos + d.nanos) / 1000000000 = carry, (t.nanos + d.nanos) % 1000000000 = nanos at *
  have hsum : (⟨t.seconds + d.seconds + carry, nanos⟩ : Time).toNanos = t.toNanos + d.toNanos := by
    simp only [toNanos, Duration.toNanos]
    omega
  constructor
  · intro h
    split at h
    · rename_i hcovers
      cases h
      exact ⟨⟨hcovers, hmod⟩, hsum⟩
    · cases h
  · rintro ⟨hu, heq⟩
    obtain rfl : (⟨t.seconds + d.seconds + carry, nanos⟩ : Time) = u :=
      eq_of_toNanos_eq hmod hu.nanos_lt (hsum.trans heq.symm)
    exact if_pos hu.covered

theorem add?_eq_none_iff : t.add? d = none ↔ ¬ ∃ u : Time, u.Representable ∧ u.toNanos = t.toNanos + d.toNanos := by
  rw [Option.eq_none_iff_forall_ne_some]
  simp only [ne_eq, add?_eq_some_iff, not_exists]

/-- A moment of the years 1970 to 9999. -/
structure HasFourDigitYear (t : Time) : Prop where
  from_1970 : 0 ≤ t.seconds
  to_9999 : t.seconds < 253402300800
  nanos_lt : t.nanos < 1000000000

def spanAfterYear9999 : Nat := 7956864576000000000000

theorem HasFourDigitYear.representable (h : t.HasFourDigitYear) : t.Representable := by
  refine ⟨?_, h.nanos_lt⟩
  have := h.from_1970
  have := h.to_9999
  have hfirst : firstDay = -96465292 := by decide
  have hlast : lastDay = 95026236 := by decide
  simp only [covers, hfirst, hlast, Bool.and_eq_true, decide_eq_true_eq]
  omega

/-- Spans of up to a quarter of a million years can be added to any of these moments. -/
theorem HasFourDigitYear.exists_sum (h : t.HasFourDigitYear) (hd : d.toNanos ≤ spanAfterYear9999) :
    ∃ u : Time, u.Representable ∧ u.toNanos = t.toNanos + d.toNanos := by
  have := h.from_1970
  have := h.to_9999
  have := h.nanos_lt
  have hlast : lastDay = 95026236 := by decide
  have hfirst : firstDay = -96465292 := by decide
  unfold spanAfterYear9999 at hd
  refine ⟨⟨(t.toNanos + d.toNanos) / 1000000000, ((t.toNanos + d.toNanos) % 1000000000).toNat⟩, ⟨?_, ?_⟩, ?_⟩
  · simp only [covers, hfirst, hlast, Bool.and_eq_true, decide_eq_true_eq, toNanos]
    omega
  · dsimp only
    omega
  · simp only [toNanos]
    omega

end Keyring.Time
