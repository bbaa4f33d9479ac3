import Keyring.KeyId
import Keyring.Manager.Reload

/-!
Rotations. A rotation makes a new key of an algorithm, has the store take it in together with the
deactivated record of the one before, and reloads. The record that is deactivated is the last of the
active ones in a listing made for the purpose.
-/
set_option autoImplicit false

namespace Keyring.Manager

/-- The lifetime that the policy grants. It may be at most the longest span of time there is. -/
def grantedTtl : Action Duration := do
  let ttl ← Action.ofExcept (← Action.observe).policy.resolve
  if Time.greatestSpan < ttl.toNanos then Action.fail (.policy .ttlOutOfRange .absent) else return ttl

def makeKey (alg : Alg) : Action EncryptedKey := do
  let key ← Action.ofExcept ((← Action.observe).generate alg)
  let der ← Action.ofExcept (Pkcs8.toDer key)
  Action.failPoint .beforeEncrypt (.encryption "injected failure before encrypt")
  let setting ← Action.observe
  Action.ofExcept (setting.encryptor.encrypt setting.nonce der)

/-- A record for a new key, which is created now and expires when its lifetime is over. -/
def makeRecord (alg : Alg) (ttl : Duration) (key : EncryptedKey) : Action Record := do
  let setting ← Action.observe
  match setting.now.add? ttl with
  | none => Action.fail (.policy .ttlOutOfRange .absent)
  | some expiry => return ⟨KeyId.ofRandom alg setting.random, alg, true, setting.now, some expiry, key⟩

def rotateUnreported (alg : Alg) : Action String := do
  let ttl ← grantedTtl
  let old := (Record.newestActive? alg (← Action.list)).map Record.deactivated
  let key ← makeKey alg
  let record ← makeRecord alg ttl key
  Action.failPoint .beforeStore (.storage (.internal "injected failure before store rotate" .absent))
  Action.rotateStore record old
  Action.failPoint .beforeReload (.internal .beforeReload)
  reload
  return record.kid

def rotate (alg : Alg) : Action String := do
  match ← (rotateUnreported alg).attempt with
  | .ok kid => do
    Action.emit (.rotated kid)
    return kid
  | .error error => do
    Action.emit (.rotationFailed alg error.message)
    Action.fail error

/-- The algorithms whose active key has expired, in the order of the algorithms. -/
def dueAlgs (s : Snapshot) (now : Time) : List Alg :=
  Alg.all.filter (fun alg => (s.active? alg).any (fun key => key.record.isExpiredAt now))

/-- Rotates each of the algorithms and gives those with which this went well and those with which it
did not. -/
def rotateEach : List Alg → Action (List Alg × List (Alg × KeyError))
  | [] => return ([], [])
  | alg :: more => do
    let outcome ← (rotate alg).attempt
    let (rotated, failures) ← rotateEach more
    match outcome with
    | .ok _ => return (alg :: rotated, failures)
    | .error error => return (rotated, (alg, error) :: failures)

def rotateExpired : Action (List Alg) := do
  let setting ← Action.observe
  let (rotated, failures) ← rotateEach (dueAlgs (← Action.snapshot) setting.now)
  if failures.isEmpty then return rotated else Action.fail (.rotationFailed failures)

/-- Makes keys for the algorithms that have no active one, up to the first failure. -/
def initKeys : List Alg → Action (List Alg)
  | [] => return []
  | alg :: more => do
    if ((← Action.snapshot).active? alg).isSome then initKeys more
    else do
      let _ ← rotate alg
      return alg :: (← initKeys more)

def start : Action Unit := reload

/-- Starts a manager under a configuration, which is also its policy, and gives the algorithms for
which keys were made. -/
def startWith (config : Config) : Action (List Alg) := Action.withPolicy config.rotationPolicy do
  Action.ofExcept config.validate
  reload
  let created ← initKeys config.algorithms
  if created.isEmpty then return created
  else do
    Action.emit (.initialKeys created)
    return created

/-- A record with a new key that never expires, as it would be made at one moment. -/
def Setting.record (s : Setting) (alg : Alg) (isActive : Bool) : Except KeyError Record := do
  let key ← s.generate alg
  let der ← Pkcs8.toDer key
  let encrypted ← s.encryptor.encrypt s.nonce der
  return ⟨KeyId.ofRandom alg s.random, alg, isActive, s.now, none, encrypted⟩

def logText (s : Snapshot) : String := "KeyManager \x7b keys: " ++ toString s.size ++ ", .. \x7d"

end Keyring.Manager
