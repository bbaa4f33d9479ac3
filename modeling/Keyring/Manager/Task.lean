import Keyring.Manager.Rotate

/-!
The background task that rotates expired keys. Each turn of its loop takes one of the branches that
are ready: a tick starts a sweep, and cancellation ends the loop. Ticks come at fixed intervals after
the sweep before; time is counted in milliseconds.
-/
set_option autoImplicit false

namespace Keyring.Manager

inductive Branch where
  | stop
  | sweep
  deriving DecidableEq, Repr

structure Task where
  interval : Nat
  nextTick : Nat
  isCancelled : Bool
  isFinished : Bool
  deriving DecidableEq, Repr

namespace Task

/-- A task whose first tick is due at once. -/
def spawn (now interval : Nat) : Except KeyError Task :=
  if interval = 0 then .error (.configuration .checkIntervalNotPositive)
  else .ok ⟨interval, now, false, false⟩

def cancel (t : Task) : Task := { t with isCancelled := true }

def ready (t : Task) (now : Nat) : List Branch :=
  if t.isFinished then []
  else (if t.isCancelled then [.stop] else []) ++ (if t.nextTick ≤ now then [.sweep] else [])

def sweep : Action Unit := do
  match ← rotateExpired.attempt with
  | .ok rotated => if rotated.isEmpty then return () else Action.emit (.sweepRotated rotated)
  | .error error => Action.emit (.sweepFailed error.message)

def turn (t : Task) (now : Nat) : Branch → Action Task
  | .stop => do
    Action.emit .taskStopped
    return { t with isFinished := true }
  | .sweep => do
    sweep
    return { t with nextTick := now + t.interval }

/-- Lets the task run through the ticks before a time, with `choose` picking among the ready branches. -/
def runUntil (choose : List Branch → Option Branch) : (turns : Nat) → Task → (now limit : Nat) → Action Task
  | 0, t, _, _ => return t
  | turns + 1, t, now, limit => do
    match choose (t.ready now) with
    | some branch => do
      let t ← t.turn now branch
      runUntil choose turns t now limit
    | none =>
      if t.isFinished || limit ≤ t.nextTick then return t
      else runUntil choose turns t (max now t.nextTick) limit

def turnsUntil (t : Task) (now limit : Nat) : Nat := 2 * ((limit - now) / t.interval + 2)

end Task
end Keyring.Manager
