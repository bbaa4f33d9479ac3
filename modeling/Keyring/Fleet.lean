import Keyring.Jws
import Keyring.Manager.Rotate

/-!
Managers over one store, with any number of operations under way on them. A move starts an operation
or carries out the next call of one, so that the calls of different operations may follow one another
in any order. The history records what was done and what the store held after it.
-/
set_option autoImplicit false

namespace Keyring.Fleet
open Manager

inductive Operation where
  | reload
  | rotate (alg : Alg)
  | rotateExpired
  | initKeys (algs : List Alg)
  | activeKey (alg : Alg)
  | keyById (kid : String)
  | sign (alg : Alg) (build : String → Except Source Bytes)
  | verify (kid : String) (payload signature : Bytes)
  | signCompact (alg : Alg) (claims : Jws.Claims)
  | verifyCompact (token : String)
  | jwks

inductive Answer where
  | finished
  | kid (kid : String)
  | algs (algs : List Alg)
  | key (key : CachedKey)
  | signed (signed : Signed)
  | token (token : String)
  | claims (claims : Json.Value)
  | keySet (keys : JwkSet)

def Operation.action : Operation → Action Answer
  | .reload => do
    Manager.reload
    return .finished
  | .rotate alg => do return .kid (← Manager.rotate alg)
  | .rotateExpired => do return .algs (← Manager.rotateExpired)
  | .initKeys algs => do return .algs (← Manager.initKeys algs)
  | .activeKey alg => do return .key (← Manager.activeKey alg)
  | .keyById kid => do return .key (← Manager.keyById kid)
  | .sign alg build => do return .signed (← Manager.sign alg build)
  | .verify kid payload signature => do
    Manager.verify kid payload signature
    return .finished
  | .signCompact alg claims => do return .token (← Jws.signCompact alg claims)
  | .verifyCompact token => do return .claims (← Jws.verifyCompact token)
  | .jwks => do return .keySet (← Manager.jwks)

/-- What a call has done. -/
inductive Deed where
  | observed (setting : Setting)
  | reported (events : List Event)
  | read (s : Snapshot)
  | numbered (generation : Nat)
  | listed (listing : Except KeyError (List Record))
  | handedIn (new : Record) (old : Option Record) (outcome : Except KeyError Unit)
  | installed (generation : Nat) (s : Snapshot)
  | discarded (generation : Nat) (s : Snapshot)

def Deed.ofCall {β : Type} (p : Published) : Call β → (answer : β) → Deed
  | .observe, setting => .observed setting
  | .report events, _ => .reported events
  | .snapshot, s => .read s
  | .takeGeneration, generation => .numbered generation
  | .list, listing => .listed listing
  | .rotateStore new old, outcome => .handedIn new old outcome
  | .install generation s, _ =>
    if generation < p.generation then .discarded generation s else .installed generation s

def Deed.finish? : Deed → Option (Nat × Snapshot)
  | .installed generation s => some (generation, s)
  | .discarded generation s => some (generation, s)
  | _ => none

structure Entry where
  job : Nat
  manager : Nat
  deed : Deed
  /-- What the store holds after the deed. -/
  store : Store

/-- What the operations have in common: the store, what each manager has published, and the history. -/
structure Shared where
  store : Store
  published : Nat → Published
  history : List Entry

namespace Shared

def world (x : Shared) (manager : Nat) : World :=
  { World.fresh x.store with published := x.published manager }

def perform {β : Type} (x : Shared) (job manager : Nat) (s : Setting) (c : Call β) : β × Shared :=
  let (answer, w) := c.perform s (x.world manager)
  (answer, {
    store := w.store
    published := fun m => if m = manager then w.published else x.published m
    history := x.history ++ [⟨job, manager, .ofCall (x.published manager) c answer, w.store⟩] })

end Shared

/-- An operation under way on a manager, with what is left of it. -/
structure Job where
  manager : Nat
  operation : Operation
  rest : Action Answer

inductive Move where
  | start (manager : Nat) (operation : Operation)
  | advance (job : Nat) (s : Setting)
  /-- Somebody else puts other records in the store. -/
  | edit (store : Store)

def Move.isEdit : Move → Bool
  | .edit _ => true
  | _ => false

end Fleet

structure Fleet where
  shared : Fleet.Shared
  jobs : List Fleet.Job

namespace Fleet
open Manager

def fresh (store : Store) : Fleet := ⟨⟨store, fun _ => .fresh, []⟩, []⟩

def move (x : Fleet) : Move → Fleet
  | .start manager operation =>
    { x with jobs := x.jobs ++ [⟨manager, operation, operation.action⟩] }
  | .advance i s =>
    match x.jobs[i]? with
    | some ⟨manager, operation, .call c next⟩ =>
      let (answer, shared) := x.shared.perform i manager s c
      ⟨shared, x.jobs.set i ⟨manager, operation, next answer⟩⟩
    | _ => x
  | .edit store => { x with shared := { x.shared with store := store } }

def run (x : Fleet) (moves : List Move) : Fleet := moves.foldl move x

theorem run_append (x : Fleet) (moves more : List Move) :
    x.run (moves ++ more) = (x.run moves).run more := by
  simp [run]

def snapshot (x : Fleet) (manager : Nat) : Snapshot := (x.shared.published manager).snapshot

def outcome? (x : Fleet) (job : Nat) : Option (Except KeyError Answer) :=
  match x.jobs[job]? with
  | some ⟨_, _, .done outcome⟩ => some outcome
  | _ => none

end Fleet
end Keyring
