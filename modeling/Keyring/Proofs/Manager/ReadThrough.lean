import Keyring.Manager.Sign
import Keyring.Proofs.Manager.AtRest
import Keyring.Proofs.Snapshot.Answers

set_option autoImplicit false

namespace Keyring.Manager

open Manager.Action Fleet

variable {outside : Outside} {w w' : World}

/-- What a reload makes of the store: a snapshot, or the failure of the listing or of a record. -/
def nextSnapshot (outside : Outside) (w : World) : Except KeyError Snapshot :=
  match (outside w.moment).list w.store with
  | .error error => .error error
  | .ok records => (Snapshot.ofRecords (outside (w.moment + 1)).encryptor records).1

theorem nextSnapshot_fails_iff : (∃ error, nextSnapshot outside w = .error error) ↔
    (outside w.moment).listFault ≠ none ∨ ∃ r ∈ w.store.records, ∃ error,
      CachedKey.ofRecord (outside (w.moment + 1)).encryptor r = .error error := by
  cases hfault : (outside w.moment).listFault with
  | some error => simp [nextSnapshot, Setting.list, hfault]
  | none =>
    have hmem (r : Record) := ((outside w.moment).arrangement.perm w.store.records).mem_iff (a := r)
    simp only [nextSnapshot, Setting.list, hfault, Snapshot.ofRecords_fails_iff, hmem, ne_eq,
      not_true_eq_false, false_or]

def listed (w : World) : World :=
  { w with published := w.published.issue.2, listCalls := w.listCalls + 1, moment := w.moment + 1 }

theorem beginReload_run (w : World) : beginReload.run outside w =
    (.ok ⟨w.published.nextGeneration, (outside w.moment).list w.store⟩, listed w) := rfl

theorem openRecords_run (records : List Record) (w : World) : (openRecords records).run outside w =
    ((Snapshot.ofRecords (outside w.moment).encryptor records).1,
      w.tick.report (Snapshot.ofRecords (outside w.moment).encryptor records).2) := rfl

theorem reload_takes (w : World) :
    (∃ error, nextSnapshot outside w = .error error ∧ (reload.run outside w).1 = .error error) ∨
      ∃ s, nextSnapshot outside w = .ok s ∧ (reload.run outside w).1 = .ok () ∧
        (reload.run outside w).2.published = w.published.reloaded s := by
  rw [reload, run_bind_of_ok _ (beginReload_run w), nextSnapshot]
  cases hl : (outside w.moment).list w.store with
  | error error => exact .inl ⟨error, rfl, rfl⟩
  | ok records =>
    rw [finishReload, run_bind_of_ok _ (run_ofExcept _ _), run_bind, openRecords_run]
    cases hs : (Snapshot.ofRecords (outside (listed w).moment).encryptor records).1 with
    | error error => exact .inl ⟨error, hs, rfl⟩
    | ok s => exact .inr ⟨s, hs, rfl, rfl⟩

/-- The store has been listed once, and it is as it was. -/
structure ListedOnce (w w' : World) : Prop where
  store : w'.store = w.store
  listCalls : w'.listCalls = w.listCalls + 1
  rotateCalls : w'.rotateCalls = w.rotateCalls

/-- How a look-up comes to its answer: by the snapshot in use; by the one that is made of the store; or, where
none can be made, by giving up. -/
inductive ReadThrough (outside : Outside) (find? : Snapshot → Option CachedKey) (hit : Event) (missing : KeyError)
    (w : World) : Except KeyError CachedKey → World → Prop where
  | hit (key : CachedKey) (h : find? w.published.snapshot = some key) :
      ReadThrough outside find? hit missing w (.ok key) (w.report [hit])
  | refreshed (s : Snapshot) (w' : World) (h : find? w.published.snapshot = none)
      (next : nextSnapshot outside w = .ok s) (listed : ListedOnce w w') (published : w'.published.snapshot = s) :
      ReadThrough outside find? hit missing w ((find? s).elim (.error missing) .ok) w'
  | stale (error : KeyError) (w' : World) (h : find? w.published.snapshot = none)
      (next : nextSnapshot outside w = .error error) (listed : ListedOnce w w')
      (published : w'.published.snapshot = w.published.snapshot) :
      ReadThrough outside find? hit missing w (.error missing) w'

theorem lookUp_reads_through (find? : Snapshot → Option CachedKey) (hit miss : Event) (missing : KeyError)
    (hw : w.published.Settled) : ReadThrough outside find? hit missing w
      ((lookUp find? hit miss missing).run outside w).1 ((lookUp find? hit miss missing).run outside w).2 := by
  cases h : find? w.published.snapshot with
  | some key =>
    rw [lookUp_run_of_hit h]
    exact .hit key h
  | none =>
    obtain ⟨houtcome, -, hmiss⟩ := (@lookUp_runs outside find? hit miss missing w).ends
    obtain ⟨hreloaded, hcalls⟩ := (@reload_runs outside (w.report [miss])).ends
    have hafter := hmiss h
    have hlisted : ListedOnce w ((lookUp find? hit miss missing).run outside w).2 :=
      ⟨hafter.store.trans hreloaded.store, hafter.listCalls.trans hcalls,
        hafter.rotateCalls.trans hreloaded.rotateCalls⟩
    rw [found?, h, Option.none_or, ← hafter.published] at houtcome
    rw [houtcome]
    rcases @reload_takes outside (w.report [miss]) with ⟨error, hnext, herror⟩ | ⟨s, hnext, -, hpublished⟩
    · have hkept : ((lookUp find? hit miss missing).run outside w).2.published.snapshot = w.published.snapshot := by
        rw [hafter.published]
        rcases hreloaded.published with ⟨-, -, hkept⟩ | ⟨hok, -⟩
        · exact hkept.snapshot
        · rw [herror] at hok
          cases hok
      rw [hkept, h]
      exact .stale error _ h hnext hlisted hkept
    · have hinstalled : ((lookUp find? hit miss missing).run outside w).2.published.snapshot = s := by
        rw [hafter.published, hpublished, show (w.report [miss]).published = w.published from rfl, hw.reloaded_eq]
      rw [hinstalled]
      exact .refreshed s _ h hnext hlisted hinstalled

theorem ReadThrough.store_eq {find? : Snapshot → Option CachedKey} {hit : Event} {missing : KeyError}
    {outcome : Except KeyError CachedKey} (h : ReadThrough outside find? hit missing w outcome w') :
    w'.store = w.store := by
  cases h with
  | hit key h => rfl
  | refreshed s w' h next listed published => exact listed.store
  | stale error w' h next listed published => exact listed.store

section signing

variable {σ : Type}

theorem signBy_run (alg : Alg) (build : String → σ → Except Source Bytes × σ) (st : σ) (w : World) :
    (signBy alg build st).run outside w = (.ok (match ((activeKey alg).run outside w).1 with
      | .error error => (.error error, st)
      | .ok key => signBuilt key (build key.kid st)), ((activeKey alg).run outside w).2) := by
  rw [signBy, run_bind_of_ok _ (run_attempt outside _ w)]
  cases ((activeKey alg).run outside w).1 <;> rfl

theorem signBy_stateless (alg : Alg) (build : String → Except Source Bytes) (w : World) :
    (signBy alg (fun kid st => (build kid, st)) ()).run outside w =
      (.ok (((sign alg build).run outside w).1, ()), ((sign alg build).run outside w).2) := by
  rw [sign, run_bind, signBy_run]
  rfl

end signing

theorem verify_run_eq (kid : String) (payload signature : Bytes) (w : World) :
    (verify kid payload signature).run outside w = (((keyById kid).run outside w).1.bind fun key =>
      Keyring.verify key.alg key.publicKey payload signature, ((keyById kid).run outside w).2) := by
  rw [verify, run_bind]
  rcases (keyById kid).run outside w with ⟨error | key, w₁⟩ <;> rfl

/-- Whatever the snapshot in use and the store have to do with each other, every look-up reads through, signing
and verifying do what the look-up does and nothing more to the world, and a builder is called once, with the id
of the key that was found, or not at all. -/
theorem look_ups_read_through (store : Store) (moves : List Move) (m : Nat) (outside : Outside) :
    let w := ((fresh store).run moves).shared.world m
    ((∃ error, nextSnapshot outside w = .error error) ↔ (outside w.moment).listFault ≠ none ∨
      ∃ r ∈ w.store.records, ∃ error, CachedKey.ofRecord (outside (w.moment + 1)).encryptor r = .error error) ∧
    (∀ kid, ∃ outcome w', (keyById kid).run outside w = (outcome, w') ∧
      ReadThrough outside (fun s => s.get? kid) (.keyHit kid) (.keyNotFound kid) w outcome w' ∧
      w'.store = w.store ∧
      ∀ payload signature, (verify kid payload signature).run outside w =
        (outcome.bind fun key => Keyring.verify key.alg key.publicKey payload signature, w')) ∧
    ∀ alg, ∃ outcome w', (activeKey alg).run outside w = (outcome, w') ∧
      ReadThrough outside (fun s => s.active? alg) (.activeHit alg) (.noActiveKey alg) w outcome w' ∧
      w'.store = w.store ∧
      (∀ build, ∃ result, (sign alg build).run outside w = (result, w') ∧
        (signBy alg (fun kid st => (build kid, st)) ()).run outside w = (.ok (result, ()), w')) ∧
      ∀ (σ : Type) (build : String → σ → Except Source Bytes × σ) (st : σ),
        (signBy alg build st).run outside w = (.ok (match outcome with
          | .error error => (.error error, st)
          | .ok key => signBuilt key (build key.kid st)), w') := by
  intro w
  have hsettled : w.published.Settled := by
    have hsound := sound_run (sound_fresh store) moves
    show (((fresh store).run moves).shared.published m).Settled
    rw [hsound.published]
    exact hsound.consistent.generation_lt m
  refine ⟨nextSnapshot_fails_iff, fun kid => ?_, fun alg => ?_⟩
  · have hread := @lookUp_reads_through outside w (fun s => s.get? kid) (.keyHit kid) (.keyMiss kid)
      (.keyNotFound kid) hsettled
    exact ⟨_, _, rfl, hread, hread.store_eq, fun payload signature => verify_run_eq kid payload signature w⟩
  · have hread := @lookUp_reads_through outside w (fun s => s.active? alg) (.activeHit alg) (.activeMiss alg)
      (.noActiveKey alg) hsettled
    refine ⟨_, _, rfl, hread, hread.store_eq, fun build => ?_, fun σ build st => signBy_run alg build st w⟩
    have hstateless := @signBy_stateless outside alg build w
    have hworld := congrArg Prod.snd (hstateless.symm.trans (signBy_run alg _ () w))
    rw [hstateless]
    exact ⟨_, Prod.ext rfl hworld, Prod.ext rfl hworld⟩

/-- A manager that has published nothing yet, and the same one after a reload. -/
def Sample.unloaded : World := ((fresh Sample.store).run []).shared.world 0

def Sample.loaded : World :=
  ((fresh Sample.store).run ([.start 0 .reload] ++ Sample.advances 0 5)).shared.world 0

/-- A miss, of which the listing succeeds or fails, and a hit. -/
theorem look_up_is_refreshed_stale_or_hit :
    let listing : Outside := fun _ => Sample.setting
    let failing : Outside := fun _ => { Sample.setting with listFault := some .timeout }
    (∃ s w, nextSnapshot listing Sample.unloaded = .ok s ∧
      (activeKey .rs256).run listing Sample.unloaded = ((s.active? .rs256).elim (.error (.noActiveKey .rs256)) .ok, w) ∧
      w.published.snapshot = s ∧ ListedOnce Sample.unloaded w) ∧
    (∃ w, (activeKey .rs256).run failing Sample.unloaded = (.error (.noActiveKey .rs256), w) ∧
      w.published.snapshot = .empty ∧ ListedOnce Sample.unloaded w) ∧
    ∃ key, (activeKey .rs256).run failing Sample.loaded = (.ok key, Sample.loaded.report [.activeHit .rs256]) := by
  intro listing failing
  have hempty : Sample.unloaded.published.snapshot.active? .rs256 = none := rfl
  have hstored : (nextSnapshot listing Sample.unloaded).toOption.isSome = true ∧
      (Sample.loaded.published.snapshot.active? .rs256).isSome = true := by decide +kernel
  have hloaded : Sample.loaded.published.snapshot.active? .rs256 ≠ none := fun h => by
    rw [h] at hstored
    cases hstored.2
  refine ⟨?_, ?_, ?_⟩
  · obtain ⟨-, -, hactive⟩ := look_ups_read_through Sample.store [] 0 listing
    obtain ⟨outcome, w, hrun, hread, -⟩ := hactive .rs256
    cases hread with
    | hit key h => cases hempty.symm.trans h
    | refreshed s w h next listed published => exact ⟨s, w, next, hrun, published, listed⟩
    | stale error w h next listed published =>
      have hnext := hstored.1
      rw [show nextSnapshot listing Sample.unloaded = .error error from next] at hnext
      cases hnext
  · obtain ⟨-, -, hactive⟩ := look_ups_read_through Sample.store [] 0 failing
    obtain ⟨outcome, w, hrun, hread, -⟩ := hactive .rs256
    cases hread with
    | hit key h => cases hempty.symm.trans h
    | refreshed s w h next listed published => cases next
    | stale error w h next listed published => exact ⟨w, hrun, published, listed⟩
  · obtain ⟨-, -, hactive⟩ := look_ups_read_through Sample.store ([.start 0 .reload] ++ Sample.advances 0 5) 0 failing
    obtain ⟨outcome, w, hrun, hread, -⟩ := hactive .rs256
    cases hread with
    | hit key h => exact ⟨key, hrun⟩
    | refreshed s w h next listed published => exact absurd h hloaded
    | stale error w h next listed published => exact absurd h hloaded

end Keyring.Manager
