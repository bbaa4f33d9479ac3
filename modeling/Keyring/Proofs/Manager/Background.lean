import Keyring.Manager.Task
import Keyring.Proofs.Manager.AtRest

/-!
The background task among all that goes on beside it. A turn of its loop takes a branch that is ready and works
through its calls one by one; in between time passes, others change the world, ticks come when they like, and the
token is cancelled. No failure ends the loop, and nothing but cancellation does. Where a tick is due as well, the
loop of a cancelled task may take it.
-/
set_option autoImplicit false

namespace Keyring.Manager
open Manager.Action

section completes

variable {α β : Type}

/-- Whatever its calls are answered, the action comes to a result, and to such a one. -/
def Action.Completes (expected : α → Prop) : Action α → Prop
  | .done (.ok x) => expected x
  | .done (.error _) => False
  | .call _ next => ∀ answer, (next answer).Completes expected

namespace Action.Completes

variable {expected : α → Prop} {a : Action α}

theorem bind {expected : β → Prop} {f : α → Action β} (h : a.Completes fun x => (f x).Completes expected) :
    (a >>= f).Completes expected := by
  induction a with
  | done outcome =>
    cases outcome with
    | ok x => exact h
    | error error => cases h
  | call c next ih => exact fun answer => ih answer (h answer)

theorem mono {expected' : α → Prop} (h : a.Completes expected) (hx : ∀ x, expected x → expected' x) :
    a.Completes expected' := by
  induction a with
  | done outcome =>
    cases outcome with
    | ok x => exact hx x h
    | error error => cases h
  | call c next ih => exact fun answer => ih answer (h answer)

theorem run (h : a.Completes expected) (outside : Outside) (w : World) :
    ∃ x, (a.run outside w).1 = .ok x ∧ expected x := by
  induction a generalizing w with
  | done outcome =>
    cases outcome with
    | ok x => exact ⟨x, rfl, h⟩
    | error error => cases h
  | call c next ih => exact ih _ (h _) _

end Action.Completes

theorem completes_attempt (a : Action α) : a.attempt.Completes fun _ => True := by
  induction a with
  | done outcome => trivial
  | call c next ih => exact ih

theorem completes_emit (event : Event) : (emit event).Completes fun _ => True := fun _ => trivial

end completes

namespace Task

variable {outside : Outside} (t : Task) (now : Nat)

theorem completes_sweep : sweep.Completes fun _ => True := by
  refine .bind ((completes_attempt rotateExpired).mono fun outcome _ => ?_)
  cases outcome with
  | error error => exact completes_emit _
  | ok rotated =>
    show (if rotated.isEmpty = true then Pure.pure () else emit (.sweepRotated rotated)).Completes _
    split
    · trivial
    · exact completes_emit _

def after : Branch → Task
  | .stop => { t with isFinished := true }
  | .sweep => { t with nextTick := now + t.interval }

theorem completes_turn (branch : Branch) : (t.turn now branch).Completes (· = t.after now branch) := by
  cases branch with
  | stop => exact .bind ((completes_emit _).mono fun _ _ => rfl)
  | sweep => exact .bind (completes_sweep.mono fun _ _ => rfl)

variable {t now}

theorem stop_mem_ready : .stop ∈ t.ready now ↔ t.isFinished = false ∧ t.isCancelled = true := by
  cases hf : t.isFinished <;> cases hc : t.isCancelled <;> simp [ready, hf, hc]

theorem sweep_mem_ready : .sweep ∈ t.ready now ↔ t.isFinished = false ∧ t.nextTick ≤ now := by
  cases hf : t.isFinished <;> cases hc : t.isCancelled <;> simp [ready, hf, hc]

end Task

/-- The task with what is around it: the clock, the world, and what is left of the turn that it is taking. -/
structure Background where
  task : Task
  now : Nat
  world : World
  turning : Option (Branch × Action Task)

namespace Background

inductive Move where
  | wait (span : Nat)
  /-- The next tick comes earlier or later than it was to come. -/
  | tickAt (due : Nat)
  | others (w : World)
  | cancel
  | take (branch : Branch)
  | work

def start (t : Task) (now : Nat) (w : World) : Background := ⟨t, now, w, none⟩

def MayTake (b : Background) (branch : Branch) : Prop := b.turning.isNone = true ∧ branch ∈ b.task.ready b.now

instance (b : Background) (branch : Branch) : Decidable (b.MayTake branch) :=
  inferInstanceAs (Decidable (_ ∧ _))

/-- What a move leads to, if it can be made. The token outlives the turn: it may have been cancelled meanwhile. -/
def step (outside : Outside) (b : Background) : Move → Option Background
  | .wait span => some { b with now := b.now + span }
  | .tickAt due => some { b with task := { b.task with nextTick := due } }
  | .others w => some { b with world := w }
  | .cancel => some { b with task := b.task.cancel }
  | .take branch =>
    if b.MayTake branch then some { b with turning := some (branch, b.task.turn b.now branch) } else none
  | .work =>
    match b.turning with
    | some (branch, .call c next) =>
      let (answer, w) := c.perform (outside b.world.moment) b.world
      some { b with world := w, turning := some (branch, next answer) }
    | some (_, .done (.ok t)) => some { b with task := { t with isCancelled := b.task.isCancelled }, turning := none }
    | some (_, .done (.error _)) => none
    | none => none

def run (outside : Outside) (b : Background) : List Move → Option Background
  | [] => some b
  | move :: moves => (b.step outside move).bind fun b => b.run outside moves

variable {outside : Outside} {b b' : Background} {move : Move} {moves former later : List Move} {t t' : Task}
  {now limit : Nat} {w w' : World} {branch : Branch} {rest : Action Task}

theorem run_append (outside : Outside) (b : Background) (former later : List Move) :
    b.run outside (former ++ later) = (b.run outside former).bind fun b => b.run outside later := by
  induction former generalizing b with
  | nil => rfl
  | cons move former ih => simp only [List.cons_append, run, Option.bind_assoc, ih]

/-- What a move leads to, one case for each that can be made. -/
inductive Led (outside : Outside) (b : Background) : Move → Background → Prop where
  | wait (span : Nat) : Led outside b (.wait span) { b with now := b.now + span }
  | tickAt (due : Nat) : Led outside b (.tickAt due) { b with task := { b.task with nextTick := due } }
  | others (w : World) : Led outside b (.others w) { b with world := w }
  | cancel : Led outside b .cancel { b with task := b.task.cancel }
  | take (branch : Branch) (h : b.MayTake branch) :
      Led outside b (.take branch) { b with turning := some (branch, b.task.turn b.now branch) }
  | call {β : Type} {branch : Branch} {c : Call β} {next : β → Action Task}
      (h : b.turning = some (branch, .call c next)) :
      Led outside b .work { b with
        world := (c.perform (outside b.world.moment) b.world).2
        turning := some (branch, next (c.perform (outside b.world.moment) b.world).1) }
  | finish {branch : Branch} {t : Task} (h : b.turning = some (branch, .done (.ok t))) :
      Led outside b .work { b with task := { t with isCancelled := b.task.isCancelled }, turning := none }

theorem led_of_step (h : b.step outside move = some b') : Led outside b move b' := by
  cases move with
  | wait span => cases h; exact .wait span
  | tickAt due => cases h; exact .tickAt due
  | others w => cases h; exact .others w
  | cancel => cases h; exact .cancel
  | take branch =>
    simp only [step] at h
    split at h
    · cases h
      exact .take branch ‹_›
    · cases h
  | work =>
    simp only [step] at h
    split at h
    · rename_i hturning
      cases h
      exact .call hturning
    · rename_i hturning
      cases h
      exact .finish hturning
    · cases h
    · cases h

/-- The loop has not ended unless the token is cancelled, and the turn under way is not ended by a failure. -/
structure Sound (b : Background) : Prop where
  finished : b.task.isFinished = true → b.task.isCancelled = true
  turn : ∀ branch rest, b.turning = some (branch, rest) → (branch = .stop → b.task.isCancelled = true) ∧
    rest.Completes fun t => t.isFinished = true → branch = .stop

theorem sound_start (h : t.isFinished = false) : (start t now w).Sound where
  finished hf := absurd (h.symm.trans hf) Bool.false_ne_true
  turn := nofun

theorem MayTake.completes (h : b.MayTake branch) :
    (b.task.turn b.now branch).Completes fun t => t.isFinished = true → branch = .stop := by
  refine (b.task.completes_turn b.now branch).mono ?_
  rintro t rfl hf
  cases branch with
  | stop => rfl
  | sweep => exact absurd ((Task.sweep_mem_ready.mp h.2).1.symm.trans hf) Bool.false_ne_true

theorem Sound.step (h : b.Sound) (hstep : b.step outside move = some b') : b'.Sound := by
  cases led_of_step hstep with
  | wait span => exact ⟨h.finished, h.turn⟩
  | tickAt due => exact ⟨h.finished, h.turn⟩
  | others w => exact ⟨h.finished, h.turn⟩
  | cancel => exact ⟨fun _ => rfl, fun branch rest hturning => ⟨fun _ => rfl, (h.turn branch rest hturning).2⟩⟩
  | take branch hmay =>
    refine ⟨h.finished, fun branch' rest hturning => ?_⟩
    cases hturning
    refine ⟨?_, hmay.completes⟩
    rintro rfl
    exact (Task.stop_mem_ready.mp hmay.2).2
  | call hturning =>
    obtain ⟨hcancelled, hrest⟩ := h.turn _ _ hturning
    refine ⟨h.finished, fun branch' rest hnext => ?_⟩
    cases hnext
    exact ⟨hcancelled, hrest _⟩
  | finish hturning =>
    obtain ⟨hcancelled, hrest⟩ := h.turn _ _ hturning
    exact ⟨fun hf => hcancelled (hrest hf), nofun⟩

theorem Sound.run (h : b.Sound) (hrun : b.run outside moves = some b') : b'.Sound := by
  induction moves generalizing b with
  | nil =>
    cases hrun
    exact h
  | cons move moves ih =>
    obtain ⟨b₁, hstep, hrun⟩ := Option.bind_eq_some_iff.mp hrun
    exact ih (h.step hstep) hrun

theorem MayTake.stop (h : b.MayTake .sweep) (hc : b.task.isCancelled = true) : b.MayTake .stop :=
  ⟨h.1, Task.stop_mem_ready.mpr ⟨(Task.sweep_mem_ready.mp h.2).1, hc⟩⟩

theorem exists_run_work (h : rest.run outside w = (.ok t', w')) (t : Task) (now : Nat) (branch : Branch) :
    ∃ n, (⟨t, now, w, some (branch, rest)⟩ : Background).run outside (List.replicate n .work) =
      some (start { t' with isCancelled := t.isCancelled } now w') := by
  induction rest generalizing w with
  | done outcome =>
    cases h
    exact ⟨1, rfl⟩
  | call c next ih =>
    obtain ⟨n, hn⟩ := ih _ h
    exact ⟨n + 1, hn⟩

theorem exists_run_turn (hmay : branch ∈ t.ready now) (h : (t.turn now branch).run outside w = (.ok t', w')) :
    ∃ n, (start t now w).run outside (.take branch :: List.replicate n .work) = some (start t' now w') := by
  obtain ⟨n, hn⟩ := exists_run_work h t now branch
  have hkept : t'.isCancelled = t.isCancelled := by
    obtain ⟨t₁, hok, rfl⟩ := (t.completes_turn now branch).run outside w
    rw [h] at hok
    cases hok
    cases branch <;> rfl
  have hstep : (start t now w).step outside (.take branch) =
      some ⟨t, now, w, some (branch, t.turn now branch)⟩ := if_pos ⟨rfl, hmay⟩
  refine ⟨n, ?_⟩
  rw [run, hstep, Option.bind_some, hn, ← hkept]

/-- The loop as it is run up to a time, whichever ready branch is chosen, is one of these runs. -/
theorem runUntil_is_run {choose : List Branch → Option Branch}
    (hchoose : ∀ bs branch, choose bs = some branch → branch ∈ bs) {turns : Nat}
    (h : (Task.runUntil choose turns t now limit).run outside w = (.ok t', w')) :
    ∃ moves now', (start t now w).run outside moves = some (start t' now' w') ∧ .cancel ∉ moves := by
  induction turns generalizing t now w with
  | zero =>
    cases h
    exact ⟨[], now, rfl, List.not_mem_nil⟩
  | succ turns ih =>
    rw [Task.runUntil] at h
    cases hbranch : choose (t.ready now) with
    | some branch =>
      rw [hbranch] at h
      obtain ⟨t₁, w₁, hturn, h⟩ := run_bind_eq_ok h
      obtain ⟨n, hn⟩ := exists_run_turn (hchoose _ _ hbranch) hturn
      obtain ⟨moves, now', hmoves, hnot⟩ := ih h
      refine ⟨(.take branch :: List.replicate n .work) ++ moves, now', ?_, ?_⟩
      · rw [run_append, hn, Option.bind_some, hmoves]
      · simp [hnot]
    | none =>
      rw [hbranch] at h
      simp only at h
      split at h
      · cases h
        exact ⟨[], now, rfl, List.not_mem_nil⟩
      · obtain ⟨moves, now', hmoves, hnot⟩ := ih h
        refine ⟨.wait (max now t.nextTick - now) :: moves, now', ?_, by simp [hnot]⟩
        have htime : now + (max now t.nextTick - now) = max now t.nextTick := by omega
        show (start t (now + (max now t.nextTick - now)) w).run outside moves = _
        rw [htime, hmoves]

end Background
end Keyring.Manager
