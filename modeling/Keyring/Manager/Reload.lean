import Keyring.Manager.Action

/-!
Reloads and read-through lookups. A reload takes a generation number, lists the store, opens the
records, and installs the snapshot unless a later one is in use; it can be split after the listing.
-/
set_option autoImplicit false

namespace Keyring.Manager

/-- A reload that has listed the store and has done no more. -/
structure Ticket where
  generation : Nat
  listing : Except KeyError (List Record)

/-- The first half of a reload, which keeps a failure of the listing for the second. -/
def beginReload : Action Ticket := do
  let generation ← Action.takeGeneration
  let listing ← Action.list.attempt
  return ⟨generation, listing⟩

def openRecords (records : List Record) : Action Snapshot := do
  let setting ← Action.observe
  let (result, events) := Snapshot.ofRecords setting.encryptor records
  Action.report events
  Action.ofExcept result

def finishReload (t : Ticket) : Action Unit := do
  let records ← Action.ofExcept t.listing
  Action.install t.generation (← openRecords records)

def reload : Action Unit := do
  finishReload (← beginReload)

/-- A reload whose failure is reported and nothing else. -/
def reloadOnMiss : Action Unit := do
  match ← reload.attempt with
  | .ok () => return ()
  | .error error => Action.emit (.missReloadFailed error.message)

/-- Looks for a key in the snapshot in use, and once more after a reload if the snapshot has none. -/
def lookUp (find? : Snapshot → Option CachedKey) (hit miss : Event) (missing : KeyError) : Action CachedKey := do
  match find? (← Action.snapshot) with
  | some key => do
    Action.emit hit
    return key
  | none => do
    Action.emit miss
    reloadOnMiss
    match find? (← Action.snapshot) with
    | some key => return key
    | none => Action.fail missing

def activeKey (alg : Alg) : Action CachedKey :=
  lookUp (fun s => s.active? alg) (.activeHit alg) (.activeMiss alg) (.noActiveKey alg)

def keyById (kid : String) : Action CachedKey :=
  lookUp (fun s => s.get? kid) (.keyHit kid) (.keyMiss kid) (.keyNotFound kid)

end Keyring.Manager
