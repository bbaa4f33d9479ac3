set_option autoImplicit false

namespace Keyring

def Duration.secondsLimit : Nat := 0x10000000000000000

structure Duration where
  seconds : Nat
  nanos : Nat
  seconds_lt : seconds < Duration.secondsLimit := by decide
  nanos_lt : nanos < 1000000000 := by decide
  deriving DecidableEq, Repr

namespace Duration

def zero : Duration := ⟨0, 0, by decide, by decide⟩

instance : Inhabited Duration := ⟨zero⟩

def isZero (d : Duration) : Bool := d.seconds = 0 && d.nanos = 0

def ofParts? (seconds nanos : Nat) : Option Duration :=
  if h : seconds + nanos / 1000000000 < secondsLimit then
    some ⟨seconds + nanos / 1000000000, nanos % 1000000000, h, Nat.mod_lt _ (by decide)⟩
  else none

def minutes (n : Nat) (h : n * 60 < secondsLimit := by decide) : Duration := ⟨n * 60, 0, h, by decide⟩

def days (n : Nat) (h : n * 86400 < secondsLimit := by decide) : Duration :=
  ⟨n * 86400, 0, h, by decide⟩

def toNanos (d : Duration) : Nat := d.seconds * 1000000000 + d.nanos

theorem isZero_iff (d : Duration) : d.isZero = true ↔ d.toNanos = 0 := by
  simp only [isZero, toNanos, Bool.and_eq_true, decide_eq_true_eq]
  omega

theorem toNanos_inj (a b : Duration) : a.toNanos = b.toNanos ↔ a = b := by
  refine ⟨fun h => ?_, fun h => h ▸ rfl⟩
  have ha := a.nanos_lt
  have hb := b.nanos_lt
  cases a
  cases b
  simp only [toNanos] at *
  simp only [Duration.mk.injEq]
  omega

end Duration
end Keyring
