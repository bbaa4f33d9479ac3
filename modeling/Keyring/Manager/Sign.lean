import Keyring.Manager.Reload

set_option autoImplicit false

namespace Keyring.Manager

structure Signed where
  kid : String
  payload : Bytes
  signature : Bytes
  deriving DecidableEq, Repr

variable {σ : Type}

def signBuilt (key : CachedKey) : Except Source Bytes × σ → Except KeyError Signed × σ
  | (.error source, st) => (.error (.payload source), st)
  | (.ok payload, st) => ((key.privateKey.sign payload).map fun signature => ⟨key.kid, payload, signature⟩, st)

/-- Signs the payload that is built for the id of the active key. The builder has a state of its own, which tells
of its calls. -/
def signBy (alg : Alg) (build : String → σ → Except Source Bytes × σ) (st : σ) :
    Action (Except KeyError Signed × σ) := do
  match ← (activeKey alg).attempt with
  | .error error => return (.error error, st)
  | .ok key => return signBuilt key (build key.kid st)

def sign (alg : Alg) (build : String → Except Source Bytes) : Action Signed := do
  let (outcome, ()) ← signBy alg (fun kid st => (build kid, st)) ()
  Action.ofExcept outcome

theorem sign_eq (alg : Alg) (build : String → Except Source Bytes) : sign alg build =
    activeKey alg >>= fun key => Action.ofExcept (signBuilt key (build key.kid, ())).1 := by
  rw [sign, signBy, bind_assoc]
  exact Action.attempt_bind (fun _ => rfl) fun _ => rfl

theorem signBuilt_eq_ok_iff {key : CachedKey} {built : Except Source Bytes × σ} {signed : Signed} :
    (signBuilt key built).1 = .ok signed ↔ signed.kid = key.kid ∧ built.1 = .ok signed.payload ∧
      key.privateKey.sign signed.payload = .ok signed.signature := by
  obtain ⟨kid, payload, signature⟩ := signed
  obtain ⟨source | payload', st⟩ := built
  · simp [signBuilt]
  · cases hsign : key.privateKey.sign payload' with
    | error error =>
      simp only [signBuilt, hsign, Except.map, reduceCtorEq, false_iff, Except.ok.injEq]
      rintro ⟨-, rfl, h⟩
      rw [hsign] at h
      cases h
    | ok signature' =>
      simp only [signBuilt, hsign, Except.map, Except.ok.injEq, Signed.mk.injEq]
      constructor
      · rintro ⟨rfl, rfl, rfl⟩
        exact ⟨rfl, rfl, hsign⟩
      · rintro ⟨rfl, rfl, h⟩
        rw [hsign] at h
        exact ⟨rfl, rfl, Except.ok.inj h⟩

def verify (kid : String) (payload signature : Bytes) : Action Unit := do
  let key ← keyById kid
  Action.ofExcept (Keyring.verify key.alg key.publicKey payload signature)

def jwks : Action JwkSet := do
  let (set, events) := (← Action.snapshot).jwks
  Action.report events
  return set

def jwksText : Action String := do
  return (← jwks).text

end Keyring.Manager
