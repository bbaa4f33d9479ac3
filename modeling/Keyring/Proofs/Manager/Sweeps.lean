import Keyring.Proofs.Manager.Attempts
import Keyring.Proofs.Manager.Resume

set_option autoImplicit false

namespace Keyring

def Record.LastsUntil (r : Record) (now : Time) : Prop := ∀ t, r.expiresAt = some t → ¬ t < now

theorem Record.lastsUntil_iff {r : Record} {now : Time} : r.LastsUntil now ↔ r.isExpiredAt now = false := by
  unfold LastsUntil isExpiredAt
  cases r.expiresAt <;> simp

instance (r : Record) (now : Time) : Decidable (r.LastsUntil now) := decidable_of_iff _ Record.lastsUntil_iff.symm

namespace Manager

open Manager.Action

variable {outside : Outside} {alg : Alg} {w w' : World} {calls : List RotationCall}

section due

variable {s : Snapshot} {now : Time}

theorem mem_dueAlgs_iff : alg ∈ dueAlgs s now ↔
    ∃ key t, s.active? alg = some key ∧ key.record.expiresAt = some t ∧ t < now := by
  simp only [dueAlgs, List.mem_filter, alg.mem_all, true_and, Option.any_eq_true, Record.isExpiredAt]
  refine exists_congr fun key => ?_
  cases key.record.expiresAt with
  | none => simp
  | some t => simp

theorem dueAlgs_ordered (s : Snapshot) (now : Time) : (dueAlgs s now).Pairwise fun a b => a.order b = .lt :=
  (show Alg.all.Pairwise fun a b => a.order b = .lt by decide).filter _

theorem dueAlgs_eq_nil_iff :
    dueAlgs s now = [] ↔ ∀ alg key, s.active? alg = some key → key.record.LastsUntil now := by
  rw [List.eq_nil_iff_forall_not_mem]
  refine forall_congr' fun alg => ?_
  rw [mem_dueAlgs_iff]
  constructor
  · exact fun h key hkey t ht hlt => h ⟨key, t, hkey, ht, hlt⟩
  · rintro h ⟨key, t, hkey, ht, hlt⟩
    exact h key hkey t ht hlt

end due

section outcomes

theorem failures_eq_nil_iff :
    calls.filterMap RotationCall.failure? = [] ↔ ∀ c ∈ calls, ∃ kid, c.outcome = .ok kid := by
  rw [List.filterMap_eq_nil_iff]
  refine forall₂_congr fun c _ => ?_
  unfold RotationCall.failure?
  cases c.outcome with
  | error error => simp
  | ok kid => simp

theorem rotated_eq_of_all_ok (h : ∀ c ∈ calls, ∃ kid, c.outcome = .ok kid) :
    calls.filterMap RotationCall.rotated? = calls.map RotationCall.alg := by
  induction calls with
  | nil => rfl
  | cons c calls ih =>
    obtain ⟨⟨kid, hok⟩, hmore⟩ := List.forall_mem_cons.mp h
    have hc : c.rotated? = some c.alg := by rw [RotationCall.rotated?, hok]
    rw [List.filterMap_cons_some hc, ih hmore, List.map_cons]

def sweepOutcome (calls : List RotationCall) : Except KeyError (List Alg) :=
  if (calls.filterMap RotationCall.failure?).isEmpty then .ok (calls.filterMap RotationCall.rotated?)
  else .error (.rotationFailed (calls.filterMap RotationCall.failure?))

theorem sweepOutcome_cases (calls : List RotationCall) :
    (∀ c ∈ calls, ∃ kid, c.outcome = .ok kid) ∧ sweepOutcome calls = .ok (calls.map RotationCall.alg) ∨
      (∃ c ∈ calls, ∃ error, c.outcome = .error error) ∧
        sweepOutcome calls = .error (.rotationFailed (calls.filterMap RotationCall.failure?)) := by
  unfold sweepOutcome
  by_cases hok : ∀ c ∈ calls, ∃ kid, c.outcome = .ok kid
  · rw [failures_eq_nil_iff.mpr hok, rotated_eq_of_all_ok hok]
    exact .inl ⟨hok, rfl⟩
  · have hsome : calls.filterMap RotationCall.failure? ≠ [] := fun hnone => hok (failures_eq_nil_iff.mp hnone)
    rw [List.isEmpty_eq_false_iff.mpr hsome]
    refine .inr ⟨?_, rfl⟩
    obtain ⟨c, hfailed⟩ := not_forall.mp hok
    obtain ⟨hc, hfailed⟩ := Classical.not_imp.mp hfailed
    exact ⟨c, hc, exists_error_iff.mpr hfailed⟩

theorem rotateExpired_run (outside : Outside) (w : World) : ∃ calls,
    Chain outside w.tick calls (rotateExpired.run outside w).2 ∧
    calls.map RotationCall.alg = dueAlgs w.published.snapshot (outside w.moment).now ∧
    (rotateExpired.run outside w).1 = sweepOutcome calls := by
  obtain ⟨calls, w', hchain, halgs, hrun⟩ :=
    rotateEach_run outside (dueAlgs w.published.snapshot (outside w.moment).now) w.tick
  have hobserve : observe.run outside w = (.ok (outside w.moment), w.tick) := rfl
  have hsnapshot : snapshot.run outside w.tick = (.ok w.published.snapshot, w.tick) := rfl
  have hswept : rotateExpired.run outside w = (sweepOutcome calls, w') := by
    simp only [rotateExpired, run_bind, hobserve, hsnapshot, hrun, sweepOutcome]
    split <;> rfl
  rw [hswept]
  exact ⟨calls, hchain, halgs, rfl⟩

end outcomes

/-- The active keys in use are those of the newest active records of the store, and a snapshot of the next reload
will take their place. -/
structure InStep (w : World) : Prop where
  settled : w.published.Settled
  active_iff : ∀ alg r, (∃ key, w.published.snapshot.active? alg = some key ∧ key.record = r) ↔
    Record.IsNewestActive alg w.store.records r

section inStep

variable {r : Record} {key : CachedKey}

theorem Current.inStep (h : Current outside w) : InStep w := by
  refine ⟨h.settled, fun alg r => ?_⟩
  obtain ⟨v, v', htaken⟩ := h.taken
  constructor
  · rintro ⟨key, hkey, rfl⟩
    exact htaken.isNewestActive hkey
  · intro hr
    obtain ⟨key, hkey⟩ := Option.isSome_iff_exists.mp (h.active_iff.mpr ⟨r, hr.mem, hr.alg_eq, hr.active⟩)
    have hnewest := htaken.isNewestActive hkey
    exact ⟨key, hkey, w.store.eq_of_kid_eq hnewest.mem hr.mem (hnewest.kid_eq hr)⟩

theorem Chain.inStep (h : Chain outside w calls w') (hok : ∀ c ∈ calls, ∃ kid, c.outcome = .ok kid)
    (hw : InStep w) : InStep w' := by
  induction h with
  | nil w => exact hw
  | cons ho _ ih =>
    obtain ⟨⟨kid, hkid⟩, hmore⟩ := List.forall_mem_cons.mp hok
    exact ih hmore ((hkid ▸ RotationCall.rotated_of ho).current hw.settled).inStep

theorem InStep.inUse (h : InStep w) (ho : w.store.OneActive) (hr : r ∈ w.store.records)
    (hactive : r.isActive = true) : InUse w r := by
  refine ⟨hr, hactive, (h.active_iff r.alg r).mpr ⟨hr, rfl, hactive, fun a ha halg haactive => ?_⟩⟩
  rw [ho a ha r hr haactive hactive halg]
  exact Record.not_precedes_self r

theorem InStep.active?_of_sameOf (h : InStep w) (h' : InStep w') (hs : Store.SameOf alg w.store w'.store)
    (hkey : w'.published.snapshot.active? alg = some key) :
    ∃ former, w.published.snapshot.active? alg = some former ∧ former.record = key.record :=
  (h.active_iff alg key.record).mpr (((h'.active_iff alg key.record).mp ⟨key, hkey, rfl⟩).congr hs)

theorem InUse.active?_eq (h : InUse w r) (hkey : w.published.snapshot.active? r.alg = some key) :
    key.record = r := by
  obtain ⟨-, -, key', hkey', hrecord⟩ := h
  rwa [Option.some.inj (hkey.symm.trans hkey')]

end inStep

theorem rotateExpired_run_of_none_due (h : dueAlgs w.published.snapshot (outside w.moment).now = []) :
    rotateExpired.run outside w = (.ok [], w.tick) := by
  obtain ⟨calls, hchain, halgs, hout⟩ := rotateExpired_run outside w
  rw [h, List.map_eq_nil_iff] at halgs
  subst halgs
  exact Prod.ext hout hchain.eq_of_nil

/-- A sweep that goes well over a store and a snapshot that agree puts the new keys in use. -/
theorem Chain.puts_in_use (h : Chain outside w calls w') (hd : (calls.map RotationCall.alg).Nodup)
    (hok : ∀ c ∈ calls, ∃ kid, c.outcome = .ok kid) (hw : InStep w) (ho : w.store.OneActive)
    {c : RotationCall} (hc : c ∈ calls) : ∃ new, c.outcome = .ok new.kid ∧ new.alg = c.alg ∧
      w.store.contains new.kid = false ∧ InUse w' new := by
  obtain ⟨kid, hkid⟩ := hok c hc
  obtain ⟨new, old, rfl, hreplaced, -⟩ := h.tookEffect hd hc hkid
  refine ⟨new, hkid, hreplaced.new_alg, Bool.eq_false_iff.mpr fun hstored => ?_,
    (h.inStep hok hw).inUse (h.keeps (invariant_oneActive outside) ho) hreplaced.new_mem hreplaced.new_active⟩
  obtain ⟨a, ha, hkida⟩ := Store.contains_iff.mp hstored
  exact hreplaced.new_kid a ha hkida

/-- A sweep rotates the algorithms whose active key in use has expired when it begins, each once and in their
order, whatever becomes of the others. It returns them all if every rotation goes well, and otherwise those that
failed with their errors; those that went well have taken effect, and the records of other algorithms are as
before. If the snapshot in use and the store agreed and no algorithm had two active records, then after a sweep
that goes well the new keys are in use, and the next one finds nothing to do as long as neither they nor the keys
that had not expired do so. -/
theorem sweep_rotates_expired_once (outside : Outside) (w : World) :
    let due := dueAlgs w.published.snapshot (outside w.moment).now
    let outcome := (rotateExpired.run outside w).1
    let w' := (rotateExpired.run outside w).2
    (∀ alg, alg ∈ due ↔ ∃ key t, w.published.snapshot.active? alg = some key ∧
      key.record.expiresAt = some t ∧ t < (outside w.moment).now) ∧
    due.Pairwise (fun a b => a.order b = .lt) ∧
    ∃ calls, Chain outside w.tick calls w' ∧ calls.map RotationCall.alg = due ∧
      ((∀ c ∈ calls, ∃ kid, c.outcome = .ok kid) ∧ outcome = .ok due ∨
        (∃ c ∈ calls, ∃ error, c.outcome = .error error) ∧
          outcome = .error (.rotationFailed (calls.filterMap RotationCall.failure?))) ∧
      (∀ c ∈ calls, ∀ kid, c.outcome = .ok kid → TookEffect c.alg kid w w') ∧
      (∀ alg, alg ∉ due → Store.SameOf alg w.store w'.store) ∧
      (InStep w → w.store.OneActive → outcome = .ok due →
        (∀ c ∈ calls, ∃ new, c.outcome = .ok new.kid ∧ new.alg = c.alg ∧
          w.store.contains new.kid = false ∧ InUse w' new) ∧
        ∀ later : Outside,
          (∀ r ∈ w'.store.records, w.store.contains r.kid = false → r.LastsUntil (later w'.moment).now) →
          (∀ alg key, alg ∉ due → w.published.snapshot.active? alg = some key →
            key.record.LastsUntil (later w'.moment).now) →
          rotateExpired.run later w' = (.ok [], w'.tick)) := by
  intro due outcome w'
  obtain ⟨calls, hchain, halgs, hout⟩ := rotateExpired_run outside w
  have hnodup : (calls.map RotationCall.alg).Nodup := halgs ▸ dueAlgs_nodup _ _
  have hother (alg : Alg) (hn : alg ∉ due) : Store.SameOf alg w.store w'.store :=
    hchain.sameOf (halgs ▸ hn)
  have hends := sweepOutcome_cases calls
  rw [← hout, halgs] at hends
  refine ⟨fun alg => mem_dueAlgs_iff, dueAlgs_ordered _ _, calls, hchain, halgs, hends, ?_, hother, ?_⟩
  · exact fun c hc kid hok => hchain.tookEffect hnodup hc hok
  intro hw hone hok
  obtain ⟨hall, -⟩ := hends.resolve_right fun ⟨_, herror⟩ => nomatch hok.symm.trans herror
  have hstart : InStep w.tick := ⟨hw.settled, hw.active_iff⟩
  have hputs {c : RotationCall} (hc : c ∈ calls) := hchain.puts_in_use hnodup hall hstart hone hc
  refine ⟨fun c hc => hputs hc, fun later hnew hkept => ?_⟩
  refine rotateExpired_run_of_none_due (dueAlgs_eq_nil_iff.mpr fun alg key hkey => ?_)
  by_cases hmem : alg ∈ due
  -- the active key is now the new one, or the one that it was
  · obtain ⟨c, hc, rfl⟩ := List.mem_map.mp (halgs.symm ▸ hmem : alg ∈ calls.map RotationCall.alg)
    obtain ⟨new, -, halg, hfree, hinUse⟩ := hputs hc
    rw [hinUse.active?_eq (halg ▸ hkey)]
    exact hnew new hinUse.1 hfree
  · obtain ⟨former, hformer, hrecord⟩ := hstart.active?_of_sameOf (hchain.inStep hall hstart) (hother alg hmem) hkey
    exact hrecord ▸ hkept alg former hmem hformer

/-- The sweep after a reload, on a store whose key has expired, and the sweep after it. -/
theorem sweep_of_first_leaves_nothing_due :
    let v := (reload.run (failingFrom 100) (World.fresh expiredStore)).2
    let v' := (rotateExpired.run (failingFrom 100) v).2
    (∃ new, new.alg = .rs256 ∧ v.store.contains new.kid = false ∧ InUse v' new) ∧
      rotateExpired.run (failingFrom 100) v' = (.ok [], v'.tick) := by
  intro v v'
  have hreload : (reload.run (failingFrom 100) (World.fresh expiredStore)).1 = .ok () :=
    eq_ok_of_toOption (by decide +kernel)
  have hone : v.store.OneActive := by decide +kernel
  have hdue : dueAlgs v.published.snapshot (failingFrom 100 v.moment).now = [.rs256] := by decide +kernel
  have hswept : (rotateExpired.run (failingFrom 100) v).1 = .ok [.rs256] := eq_ok_of_toOption (by decide +kernel)
  have hnew : ∀ r ∈ v'.store.records, v.store.contains r.kid = false →
      r.LastsUntil (failingFrom 100 v'.moment).now := by decide +kernel
  have hnone : ∀ alg ∈ [Alg.es256, .edDsa], v.published.snapshot.active? alg = none := by
    simp only [← Option.isNone_iff_eq_none]
    decide +kernel
  have hloaded := (@reload_runs (failingFrom 100) (World.fresh expiredStore)).ends.1
  rw [hreload] at hloaded
  have hstep : InStep v := (hloaded.current Published.settled_fresh).inStep
  obtain ⟨-, -, calls, -, halgs, -, -, -, hafter⟩ := sweep_rotates_expired_once (failingFrom 100) v
  rw [hdue] at halgs hafter
  obtain ⟨hputs, hagain⟩ := hafter hstep hone hswept
  obtain ⟨c, hc, halg⟩ := List.mem_map.mp (halgs ▸ List.mem_cons_self : Alg.rs256 ∈ calls.map RotationCall.alg)
  obtain ⟨new, -, hnewalg, hfree, hinUse⟩ := hputs c hc
  refine ⟨⟨new, hnewalg.trans halg, hfree, hinUse⟩, hagain (failingFrom 100) hnew fun alg key hn hkey => ?_⟩
  rw [hnone alg (by cases alg <;> simp at hn ⊢)] at hkey
  cases hkey

end Manager
end Keyring
