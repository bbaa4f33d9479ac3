import Keyring.Catalog
import Keyring.Encryptor
import Keyring.Event
import Keyring.Pkcs8

/-!
Snapshots: the opened keys of a whole listing of the store, and of each algorithm the active one. Of
several active keys of an algorithm the last one counts, and the others are reported.
-/
set_option autoImplicit false

namespace Keyring

structure CachedKey where
  record : Record
  privateKey : PrivateKey
  deriving DecidableEq

namespace CachedKey

def kid (k : CachedKey) : String := k.record.kid
def alg (k : CachedKey) : Alg := k.record.alg
def isActive (k : CachedKey) : Bool := k.record.isActive
def publicKey (k : CachedKey) : PublicKey := k.privateKey.publicKey

def ofRecord (e : Encryptor) (r : Record) : Except KeyError CachedKey :=
  match e.decrypt r.encryptedKey with
  | .error error => .error error
  | .ok der =>
    match Pkcs8.ofDer der with
    | .error error => .error error
    | .ok key =>
      if key.alg = r.alg then .ok ⟨r, key⟩ else .error (.decode (.otherKind r.kid r.alg key.alg))

/-- Whether a key takes the place of another one as the active key of their algorithm. -/
def Supersedes (k other : CachedKey) : Prop := other.record.Precedes k.record

instance (k other : CachedKey) : Decidable (k.Supersedes other) :=
  inferInstanceAs (Decidable (Record.Precedes _ _))

end CachedKey

structure Snapshot where
  /-- The keys by their ids. -/
  keys : List CachedKey
  /-- The active keys by their algorithms. -/
  actives : List CachedKey

namespace Snapshot

def empty : Snapshot := ⟨[], []⟩

def get? (s : Snapshot) (kid : String) : Option CachedKey := Catalog.find? CachedKey.kid kid s.keys

def active? (s : Snapshot) (alg : Alg) : Option CachedKey := Catalog.find? CachedKey.alg alg s.actives

def size (s : Snapshot) : Nat := s.keys.length

def kids (s : Snapshot) : List String := (s.keys.map CachedKey.kid).mergeSort (fun a b => !decide (b < a))

/-- The active key of an algorithm once a further active key has come, and the report if one of the
two has to be ignored. -/
def elect (k : CachedKey) : Option CachedKey → CachedKey × List Event
  | none => (k, [])
  | some other =>
    if k.Supersedes other then (k, [.multipleActive k.alg k.kid other.kid])
    else (other, [.multipleActive k.alg other.kid k.kid])

def add (s : Snapshot) (k : CachedKey) : Snapshot × List Event :=
  if k.isActive then
    let (best, events) := elect k (s.active? k.alg)
    (⟨Catalog.put CachedKey.kid k s.keys, Catalog.put CachedKey.alg best s.actives⟩, events)
  else (⟨Catalog.put CachedKey.kid k s.keys, s.actives⟩, [])

/-- Opens the records one after another and takes in their keys; the first that cannot be opened ends
this. What was reported until then stays. -/
def extend (e : Encryptor) (s : Snapshot) : List Record → Except KeyError Snapshot × List Event
  | [] => (.ok s, [])
  | r :: rs =>
    match CachedKey.ofRecord e r with
    | .error error => (.error error, [])
    | .ok k =>
      let (s, events) := s.add k
      let (result, more) := extend e s rs
      (result, events ++ more)

def ofRecords (e : Encryptor) (records : List Record) : Except KeyError Snapshot × List Event :=
  empty.extend e records

end Snapshot
end Keyring
