import Keyring.Store

/-!
Stores in memory and the handles on them. A handle that is cloned from another one leads to the same
store, so that what is done through one of them is seen through both.
-/
set_option autoImplicit false

namespace Keyring.Store

inductive Change where
  | insert (r : Record)
  | rotate (new : Record) (old : Option Record)

def change (s : Store) : Change → Except StorageError Unit × Store
  | .insert r => (.ok (), s.insert r)
  | .rotate new old =>
    match s.rotate new old with
    | .error error => (.error error, s)
    | .ok s => (.ok (), s)

/-- The stores by their places, and the place that each handle leads to. -/
structure Memory where
  stores : Nat → Store
  places : Nat → Nat

namespace Memory

def fresh : Memory := ⟨fun _ => .empty, id⟩

def store (m : Memory) (handle : Nat) : Store := m.stores (m.places handle)

/-- Has the target lead to where the handle leads. -/
def clone (m : Memory) (handle target : Nat) : Memory :=
  { m with places := fun h => if h = target then m.places handle else m.places h }

def change (m : Memory) (handle : Nat) (c : Change) : Except StorageError Unit × Memory :=
  let (answer, s) := (m.store handle).change c
  (answer, { m with stores := fun place => if place = m.places handle then s else m.stores place })

inductive Step where
  | clone (handle target : Nat)
  | change (handle : Nat) (c : Change)

def step (m : Memory) : Step → Memory
  | .clone handle target => m.clone handle target
  | .change handle c => (m.change handle c).2

def run (m : Memory) (steps : List Step) : Memory := steps.foldl step m

/-- The changes that a run makes through the handles on a place, one after another. -/
def changesAt (place : Nat) : Memory → List Step → List Change
  | _, [] => []
  | m, .clone handle target :: more => changesAt place (m.clone handle target) more
  | m, .change handle c :: more =>
    if m.places handle = place then c :: changesAt place (m.change handle c).2 more
    else changesAt place (m.change handle c).2 more

end Memory
end Keyring.Store
