import Keyring.Config
import Keyring.Jwk
import Keyring.Store

/-!
What a key manager works on. `World` is its store and what it has published; `Setting` is what the
world outside answers at one moment: the clock, chance, the policy, and which calls fail. An action is
a tree of calls: each call is carried out in one piece, and its answer decides how the action goes on.
Run by itself it goes through the moments, one for each question it asks, and what it has changed
stays changed also when it fails.
-/
set_option autoImplicit false

namespace Keyring.Manager

inductive FailPoint where
  | beforeEncrypt
  | beforeStore
  | beforeReload
  deriving DecidableEq, Repr

def FailPoint.name : FailPoint → String
  | .beforeEncrypt => "rotate-before-encrypt"
  | .beforeStore => "rotate-before-store"
  | .beforeReload => "rotate-before-reload"

structure Arrangement where
  arrange : List Record → List Record
  perm : ∀ records, (arrange records).Perm records

def Arrangement.byCreation : Arrangement where
  arrange records := records.mergeSort (fun a b => !decide (b.Precedes a))
  perm records := List.mergeSort_perm records _

def Arrangement.reversed (a : Arrangement) : Arrangement where
  arrange records := (a.arrange records).reverse
  perm records := (List.reverse_perm _).trans (a.perm records)

structure Setting where
  now : Time
  policy : Policy
  encryptor : Encryptor
  nonce : Bytes
  random : Bytes
  generate : Alg → Except KeyError PrivateKey
  arrangement : Arrangement
  listFault : Option StorageError
  rotateFault : Option StorageError
  isInjected : FailPoint → Bool

namespace Setting

def list (s : Setting) (store : Store) : Except KeyError (List Record) :=
  match s.listFault with
  | some error => .error (.storage error)
  | none => .ok (s.arrangement.arrange store.records)

def rotate (s : Setting) (store : Store) (new : Record) (old : Option Record) : Except KeyError Store :=
  match s.rotateFault with
  | some error => .error (.storage error)
  | none =>
    match store.rotate new old with
    | .error error => .error (.storage error)
    | .ok store => .ok store

end Setting

/-- What is outside, moment by moment. -/
abbrev Outside := Nat → Setting

/-- The snapshot in use with the number of the reload that installed it, and the next such number. -/
structure Published where
  generation : Nat
  snapshot : Snapshot
  nextGeneration : Nat

namespace Published

def fresh : Published := ⟨0, .empty, 1⟩

def issue (p : Published) : Nat × Published := (p.nextGeneration, { p with nextGeneration := p.nextGeneration + 1 })

/-- Installs a snapshot, unless one of a later generation is in use. -/
def install (p : Published) (generation : Nat) (s : Snapshot) : Published × Event :=
  if generation < p.generation then (p, .staleReload generation p.generation)
  else ({ p with generation := generation, snapshot := s }, .reloaded s.size generation)

@[simp] theorem install_nextGeneration (p : Published) (generation : Nat) (s : Snapshot) :
    (p.install generation s).1.nextGeneration = p.nextGeneration := by
  unfold install
  split <;> rfl

end Published

structure World where
  store : Store
  published : Published
  listCalls : Nat
  rotateCalls : Nat
  events : List Event
  moment : Nat

namespace World

def fresh (store : Store) : World := ⟨store, .fresh, 0, 0, [], 0⟩

def report (w : World) (events : List Event) : World := { w with events := w.events ++ events }

def tick (w : World) : World := { w with moment := w.moment + 1 }

end World

/-- What an action asks for or has done, at one go. The type is that of the answer. -/
inductive Call : Type → Type where
  | observe : Call Setting
  | report (events : List Event) : Call Unit
  | snapshot : Call Snapshot
  | takeGeneration : Call Nat
  | list : Call (Except KeyError (List Record))
  | rotateStore (new : Record) (old : Option Record) : Call (Except KeyError Unit)
  | install (generation : Nat) (s : Snapshot) : Call Unit

/-- The answer to a call under the setting of the moment, and the world after it. A call that asks the
outside takes up the moment. -/
def Call.perform {β : Type} (s : Setting) (w : World) : Call β → β × World
  | .observe => (s, w.tick)
  | .report events => ((), w.report events)
  | .snapshot => (w.published.snapshot, w)
  | .takeGeneration => (w.published.issue.1, { w with published := w.published.issue.2 })
  | .list => (s.list w.store, { w.tick with listCalls := w.listCalls + 1 })
  | .rotateStore new old =>
    let w' := { w.tick with rotateCalls := w.rotateCalls + 1 }
    match s.rotate w.store new old with
    | .error error => (.error error, w')
    | .ok store => (.ok (), { w' with store := store })
  | .install generation taken =>
    let (published, event) := w.published.install generation taken
    ((), { w with published := published }.report [event])

inductive Action (α : Type) : Type 1 where
  | done (outcome : Except KeyError α)
  | call {β : Type} (c : Call β) (next : β → Action α)

namespace Action

variable {α β : Type}

def pure (x : α) : Action α := .done (.ok x)

def bind : Action α → (α → Action β) → Action β
  | .done (.error error), _ => .done (.error error)
  | .done (.ok x), f => f x
  | .call c next, f => .call c fun answer => (next answer).bind f

instance : Monad Action where
  pure := pure
  bind := bind

def fail (error : KeyError) : Action α := .done (.error error)

def ofExcept (x : Except KeyError α) : Action α := .done x

def ask (c : Call α) : Action α := .call c pure

/-- Runs an action and gives its outcome, be it a failure. -/
def attempt : Action α → Action (Except KeyError α)
  | .done outcome => .done (.ok outcome)
  | .call c next => .call c fun answer => (next answer).attempt

/-- Runs an action with all questions to the policy answered by the given one. -/
def withPolicy (policy : Policy) : Action α → Action α
  | .done outcome => .done outcome
  | .call .observe next => .call .observe fun s => (next { s with policy := policy }).withPolicy policy
  | .call c next => .call c fun answer => (next answer).withPolicy policy

def observe : Action Setting := ask .observe

def report (events : List Event) : Action Unit := ask (.report events)

def emit (event : Event) : Action Unit := report [event]

def snapshot : Action Snapshot := ask .snapshot

def takeGeneration : Action Nat := ask .takeGeneration

def list : Action (List Record) := do
  ofExcept (← ask .list)

def rotateStore (new : Record) (old : Option Record) : Action Unit := do
  ofExcept (← ask (.rotateStore new old))

def install (generation : Nat) (s : Snapshot) : Action Unit := ask (.install generation s)

/-- Fails with the given error if the failure is injected. -/
def failPoint (p : FailPoint) (error : KeyError) : Action Unit := do
  if (← observe).isInjected p then fail error else return ()

def run (outside : Outside) : Action α → World → Except KeyError α × World
  | .done outcome, w => (outcome, w)
  | .call c next, w =>
    let (answer, w) := c.perform (outside w.moment) w
    (next answer).run outside w

theorem run_bind (outside : Outside) (a : Action α) (f : α → Action β) (w : World) :
    (a >>= f).run outside w =
      match a.run outside w with
      | (.error error, w) => (.error error, w)
      | (.ok x, w) => (f x).run outside w := by
  induction a generalizing w with
  | done outcome => cases outcome <;> rfl
  | call c next ih => exact ih _ _

instance : LawfulMonad Action := LawfulMonad.mk' _
  (by
    intro α a
    induction a with
    | done outcome => cases outcome <;> rfl
    | call c next ih => exact congrArg (Action.call c) (funext ih))
  (fun _ _ => rfl)
  (by
    intro α β γ a f g
    induction a with
    | done outcome => cases outcome <;> rfl
    | call c next ih => exact congrArg (Action.call c) (funext ih))

theorem run_attempt (outside : Outside) (a : Action α) (w : World) :
    a.attempt.run outside w = (.ok (a.run outside w).1, (a.run outside w).2) := by
  induction a generalizing w with
  | done outcome => rfl
  | call c next ih => exact ih _ _

theorem attempt_bind {a : Action α} {f : α → Action β} {k : Except KeyError α → Action β}
    (herror : ∀ error, k (.error error) = fail error) (hok : ∀ x, k (.ok x) = f x) : a.attempt >>= k = a >>= f := by
  induction a with
  | done outcome =>
    cases outcome with
    | error error => exact herror error
    | ok x => exact hok x
  | call c next ih => exact congrArg (call c) (funext ih)

theorem run_withPolicy (policy : Policy) (outside : Outside) (a : Action α) (w : World) :
    (a.withPolicy policy).run outside w = a.run (fun moment => { outside moment with policy := policy }) w := by
  induction a generalizing w with
  | done outcome => rfl
  | call c next ih =>
    cases c with
    | observe => exact ih { outside w.moment with policy := policy } w.tick
    | _ => exact ih _ _

end Action
end Keyring.Manager
