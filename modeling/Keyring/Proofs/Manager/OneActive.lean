import Keyring.Proofs.Fleet.Soundness
import Keyring.Proofs.Manager.Sequence
import Keyring.Proofs.Snapshot.Order

set_option autoImplicit false

namespace Keyring.Manager

open Manager.Action Fleet

variable {outside : Outside} {alg : Alg} {w w' : World}

/-- No number of a reload is given out twice, so that what a reload takes by itself is published. -/
theorem invariant_settled (outside : Outside) : Invariant outside fun w => w.published.Settled where
  reloaded := by
    intro w w' outcome hw h
    rcases h.published with ⟨-, -, hkept⟩ | ⟨-, s, -, hp⟩
    · exact hw.of_kept hkept
    · exact hp ▸ hw.reloaded s
  rotated := by
    intro alg w w' outcome hw h
    cases h with
    | refused error _ hp => exact hp ▸ hw
    | unpublished error new _ hkept => exact hw.of_kept hkept
    | published new s _ _ hp => exact hp ▸ hw.reloaded s

theorem Reloaded.taken (h : Reloaded outside w (.ok ()) w') (hw : w.published.Settled) :
    TakenBetween outside w w' w.store w'.published.snapshot := by
  obtain ⟨error, hfailed, -⟩ | ⟨-, s, hs, hp⟩ := h.published
  · cases hfailed
  · rwa [hp, hw.reloaded_eq]

theorem Rotated.taken {kid : String} (h : Rotated outside alg w (.ok kid) w') (hw : w.published.Settled) :
    TakenBetween outside w w' w'.store w'.published.snapshot := by
  cases h with
  | published new s _ hs hp => rwa [hp, hw.reloaded_eq]

theorem invariant_oneActive (outside : Outside) : Invariant outside fun w => w.store.OneActive where
  reloaded := fun hw h => h.store ▸ hw
  rotated := by
    intro alg w w' outcome hw h
    rcases h.store_cases with hs | ⟨new, hs⟩
    · exact hs ▸ hw
    · exact hs.oneActive hw

theorem TakenBetween.isNewestActive {store : Store} {s : Snapshot} {key : CachedKey}
    (h : TakenBetween outside w w' store s) (hkey : s.active? alg = some key) :
    Record.IsNewestActive alg store.records key.record := by
  obtain ⟨moment, records, events, -, -, hperm, hs⟩ := h
  obtain ⟨ks, rfl, hnewest⟩ := @Snapshot.isNewest_of_ofRecords _ _ _ alg (congrArg Prod.fst hs)
  rw [hkey] at hnewest
  obtain ⟨⟨hmem, hactive, halg⟩, hlast⟩ := hnewest
  refine Record.IsNewestActive.congr ⟨List.mem_map_of_mem hmem, halg, hactive, fun a ha haalg ha' => ?_⟩
    fun a _ => hperm.mem_iff
  obtain ⟨other, hother, rfl⟩ := List.mem_map.mp ha
  exact hlast other hother ha' haalg

theorem TakenBetween.active?_eq {v v' : World} {store : Store} {s : Snapshot} {new : Record}
    (h : TakenBetween outside v v' store s)
    (ha : ∀ r, r ∈ store.records ∧ r.alg = alg ∧ r.isActive = true ↔ r = new) :
    ∃ key, s.active? alg = some key ∧ key.record = new := by
  obtain ⟨moment, records, events, -, -, hperm, hs⟩ := id h
  obtain ⟨key, hkey⟩ := Option.isSome_iff_exists.mp
    ((Snapshot.reflects_of_listing hs hperm).active alg ⟨new, (ha new).mpr rfl⟩)
  have hnewest := h.isNewestActive hkey
  exact ⟨key, hkey, (ha _).mp ⟨hnewest.mem, hnewest.alg_eq, hnewest.active⟩⟩

/-- How a rotation that has gone well leaves the store and what is published. -/
structure PutInService (outside : Outside) (alg : Alg) (kid : String) (w w' : World) : Prop where
  active : ∃ new : Record, new.kid = kid ∧
    ∀ r, r ∈ w'.store.records ∧ r.alg = alg ∧ r.isActive = true ↔ r = new
  snapshot : ∃ moment, w.moment ≤ moment ∧ moment < w'.moment ∧
    ∀ records, records.Perm w'.store.records → ∃ s,
      (Snapshot.ofRecords (outside moment).encryptor records).1 = .ok s ∧ w'.published.snapshot.Agrees s
  published : (w'.published.snapshot.active? alg).map CachedKey.kid = some kid
  before : ∀ r ∈ w.store.records, r.alg = alg → r.isActive = true → r.deactivated ∈ w'.store.records

theorem Rotated.putInService {kid : String} (h : Rotated outside alg w (.ok kid) w')
    (ho : w.store.OneActive) (hp : w.published.Settled) : PutInService outside alg kid w w' := by
  have htaken := h.taken hp
  cases h with
  | published new s hstore _ _ =>
    have hactive : ∀ r, r ∈ w'.store.records ∧ r.alg = alg ∧ r.isActive = true ↔ r = new :=
      fun _ => hstore.active_iff ho
    refine ⟨⟨new, rfl, hactive⟩, ?_, ?_, fun r hr halg ha => hstore.deactivated_mem ho hr halg ha⟩
    · obtain ⟨moment, records, events, hfrom, hto, hperm, hrecords⟩ := htaken
      refine ⟨moment, hfrom, hto, fun other hother => ?_⟩
      exact Snapshot.ofRecords_perm (congrArg Prod.fst hrecords) (hother.trans hperm.symm)
        ((hperm.map _).nodup_iff.mpr w'.store.distinct)
    · obtain ⟨key, hkey, rfl⟩ := htaken.active?_eq hactive
      rw [hkey]
      rfl

/-- A manager that starts on a store with at most one active record of each algorithm keeps it so,
whatever it is asked for and whatever fails, and each rotation that goes well puts its key in service.
Those that a sweep consists of are among them, since `v` may also be passed on the way. -/
theorem rotations_leave_one_active (outside : Outside) (store : Store) (h : store.OneActive) (v : World)
    (hv : Reaches outside (fun _ _ => False) (World.fresh store) v) :
    v.store.OneActive ∧ ∀ alg kid v', (rotate alg).run outside v = (.ok kid, v') →
      PutInService outside alg kid v v' := by
  have hactive := (invariant_oneActive outside).reaches hv h fun _ _ _ he => he.elim
  have hsettled := (invariant_settled outside).reaches hv Published.settled_fresh fun _ _ _ he => he.elim
  refine ⟨hactive, fun alg kid v' hrun => ?_⟩
  have hend := (@rotate_runs outside alg v).ends
  rw [hrun] at hend
  exact hend.putInService hactive hsettled

/-- A rotation after a reload, on a store with one active record. -/
theorem rotation_of_first_puts_in_service :
    let outside : Outside := fun _ => Sample.setting
    let v := (Operation.reload.action.run outside (World.fresh Sample.store)).2
    PutInService outside .rs256 "RS256_AAAAAAAAAAAAAAAA" v ((rotate .rs256).run outside v).2 := by
  intro outside v
  have hone : Sample.store.OneActive := by decide +kernel
  have hkid : ((rotate .rs256).run outside v).1.toOption = some "RS256_AAAAAAAAAAAAAAAA" := by
    decide +kernel
  refine (rotations_leave_one_active outside Sample.store hone v (.run .refl _)).2 _ _ _ ?_
  cases hrun : (rotate .rs256).run outside v with
  | mk outcome v' =>
    rw [hrun] at hkid
    cases outcome with
    | error error => cases hkid
    | ok kid => cases hkid; rfl

end Keyring.Manager
