import Keyring.Manager.Task
import Keyring.Proofs.Manager.OneActive
import Keyring.Proofs.Store.Sweep

/-!
Sweeps, which rotate the keys that have expired. Which keys have expired is read off the snapshot in use,
and what is put out of use is read off the store. The two agree, unless a rotation has been stored and its
key has not been published since. Main statement: a sweep puts expired keys out of use, one for each
algorithm, except where the snapshot has been overtaken in this way.
-/
set_option autoImplicit false

namespace Keyring.Manager

open Manager.Action Fleet

variable {outside : Outside} {alg : Alg} {w w' v v' : World}

/-- The world is reached by operations and turns of a background task, one after another. Each may also
be dropped on its way. -/
inductive Proceeds (outside : Outside) (w : World) : World → Prop where
  | refl : Proceeds outside w w
  | operation {v v' : World} (h : Proceeds outside w v) (op : Operation)
      (hp : op.action.Passes outside v v') : Proceeds outside w v'
  | turn {v v' : World} (h : Proceeds outside w v) (t : Task) (now : Nat) (branch : Branch)
      (hp : (t.turn now branch).Passes outside v v') : Proceeds outside w v'

section task

variable {inv : World → Prop}

theorem Invariant.keeps_sweep (h : Invariant outside inv) : Task.sweep.Keeps outside inv := by
  refine h.keeps_rotateExpired.attempt.bind fun outcome => ?_
  cases outcome with
  | error error => exact h.keeps_report _
  | ok rotated =>
    cases hr : rotated.isEmpty <;> simp only [hr]
    · exact h.keeps_report _
    · exact keeps_done _

theorem Invariant.keeps_turn (h : Invariant outside inv) (t : Task) (now : Nat) (branch : Branch) :
    (t.turn now branch).Keeps outside inv := by
  cases branch with
  | stop => exact (h.keeps_report _).bind fun _ => keeps_done _
  | sweep => exact h.keeps_sweep.bind fun _ => keeps_done _

theorem Invariant.proceeds (h : Invariant outside inv) (hw : inv w) (hp : Proceeds outside w v) :
    inv v := by
  induction hp with
  | refl => exact hw
  | operation _ op hp ih => exact (h.keeps_operation op _ ih).passes hp
  | turn _ t now branch hp ih => exact (h.keeps_turn t now branch _ ih).passes hp

end task

/-- The active key in use has been put out of use in the store, where there is an active one that has not
been published. -/
def Overtaken (w : World) (alg : Alg) : Prop :=
  (∃ key, w.published.snapshot.active? alg = some key ∧ key.record.deactivated ∈ w.store.records) ∧
    ∃ r ∈ w.store.records, r.alg = alg ∧ r.isActive = true ∧ w.published.snapshot.get? r.kid = none

instance (w : World) (alg : Alg) : Decidable (Overtaken w alg) :=
  decidable_of_iff
    ((w.published.snapshot.active? alg).any (fun key => key.record.deactivated ∈ w.store.records) ∧
      ∃ r ∈ w.store.records, r.alg = alg ∧ r.isActive = true ∧ w.published.snapshot.get? r.kid = none)
    (by simp [Overtaken, Option.any_eq_true])

theorem TakenBetween.not_overtaken (h : TakenBetween outside w w' v.store v.published.snapshot)
    (alg : Alg) : ¬ Overtaken v alg := by
  rintro ⟨⟨key, hkey, hd⟩, -⟩
  have hnewest := h.isNewestActive hkey
  exact Store.deactivated_not_mem hnewest.mem hnewest.active hd

/-- The keys in use are those of stored records, and the active ones are the newest active ones there,
unless they have been overtaken. -/
structure Tracks (w : World) : Prop where
  stored : ∀ kid key, w.published.snapshot.get? kid = some key → ∃ r ∈ w.store.records, r.kid = kid
  newest : ∀ alg key, w.published.snapshot.active? alg = some key →
    Record.IsNewestActive alg w.store.records key.record ∨ Overtaken w alg

theorem tracks_fresh (store : Store) : Tracks (World.fresh store) where
  stored := by
    intro kid key hkey
    cases hkey
  newest := by
    intro alg key hkey
    cases hkey

theorem TakenBetween.tracks (h : TakenBetween outside v v' w.store w.published.snapshot) : Tracks w where
  stored := by
    obtain ⟨moment, records, events, -, -, hperm, hs⟩ := h
    intro kid key hkey
    obtain ⟨hmem, hkid⟩ := Snapshot.mem_of_get? hkey
    exact ⟨key.record, hperm.mem_iff.mp (Snapshot.opened_of_mem_keys hs hmem).1, hkid⟩
  newest := fun _ _ hkey => .inl (h.isNewestActive hkey)

theorem Tracks.of_eq (h : Tracks w) (hs : w'.store = w.store)
    (hp : w'.published.snapshot = w.published.snapshot) : Tracks w' := by
  obtain ⟨hstored, hnewest⟩ := h
  unfold Overtaken at hnewest
  rw [← hs, ← hp] at hstored hnewest
  exact ⟨hstored, hnewest⟩

theorem Tracks.of_handedIn {new : Record} (h : Tracks w) (hs : w.store.HandedIn alg new w'.store)
    (hp : w'.published.snapshot = w.published.snapshot) : Tracks w' := by
  obtain ⟨old, hreplaced⟩ := hs.replaced
  -- the snapshot cannot have the new key, whose id was free in the store that it was taken from
  have hunpublished : ∃ r ∈ w'.store.records, r.alg = alg ∧ r.isActive = true ∧
      w'.published.snapshot.get? r.kid = none := by
    refine ⟨new, hreplaced.new_mem, hreplaced.new_alg, hreplaced.new_active,
      Option.eq_none_iff_forall_ne_some.mpr fun key hkey => ?_⟩
    obtain ⟨r, hr, hkid⟩ := h.stored _ key (hp ▸ hkey)
    exact hreplaced.new_kid r hr hkid
  refine ⟨fun kid key hkey => ?_, fun alg' key hkey => ?_⟩
  · obtain ⟨r, hr, hkid⟩ := h.stored kid key (hp ▸ hkey)
    obtain ⟨r', hr', hbecame⟩ := hs.evolves.kept r hr
    exact ⟨r', hr', hbecame.kid_eq.trans hkid⟩
  rcases h.newest alg' key (hp ▸ hkey) with hnewest | ⟨⟨key', hkey', hd⟩, r, hr, hralg, hunseen⟩
  · by_cases heq : alg' = alg
    · subst heq
      exact .inr ⟨⟨key, hkey, (hreplaced.deactivated_mem hnewest).2⟩, hunpublished⟩
    · exact .inl (hnewest.congr fun a halg => (hs.sameOf heq a halg).symm)
  · -- what is inactive stays as it is
    obtain ⟨a, ha, hbecame⟩ := hs.evolves.kept _ hd
    refine .inr ⟨⟨key', hp ▸ hkey', hbecame.eq_of_inactive rfl ▸ ha⟩, ?_⟩
    by_cases heq : alg' = alg
    · exact heq ▸ hunpublished
    · exact ⟨r, (hs.sameOf heq r hralg).mpr hr, hralg, hp ▸ hunseen⟩

theorem invariant_tracks (outside : Outside) : Invariant outside Tracks where
  reloaded := by
    intro w w' outcome hw h
    rcases h.published with ⟨-, -, hp⟩ | ⟨-, s, hs, hp⟩
    · exact hw.of_eq h.store hp.snapshot
    · rcases w.published.reloaded_snapshot s with heq | heq <;> rw [← hp] at heq
      · rw [← h.store, ← heq] at hs
        exact hs.tracks
      · exact hw.of_eq h.store heq
  rotated := by
    intro alg w w' outcome hw h
    cases h with
    | refused error hs hp => exact hw.of_eq hs (congrArg Published.snapshot hp)
    | unpublished error new hs hp => exact hw.of_handedIn hs hp.snapshot
    | published new s hs htaken hp =>
      rcases w.published.reloaded_snapshot s with heq | heq <;> rw [← hp] at heq
      · rw [← heq] at htaken
        exact htaken.tracks
      · exact hw.of_handedIn hs heq

section sweep

theorem Rotated.handedOver {outcome : Except KeyError String} {algs : List Alg} {store : Store}
    (h : Rotated outside alg w outcome w') (hs : Store.HandedOver algs w'.store store) :
    Store.HandedOver (alg :: algs) w.store store := by
  rcases h.store_cases with heq | ⟨new, hin⟩
  · exact .skip (heq ▸ hs)
  · exact .rotate hin hs

theorem rotateEach_runs (algs : List Alg) (w : World) :
    (rotateEach algs).Runs outside (fun v => Store.HandedOver algs w.store v.store) w fun _ w' =>
      Store.HandedOver algs w.store w'.store := by
  induction algs generalizing w with
  | nil => exact ⟨.nil _, .nil _⟩
  | cons alg more ih =>
    refine .bind (.attempt ((rotate_runs alg w).mono ?_ ?_))
    · rintro v ⟨outcome, hv⟩
      exact hv.handedOver (.refl more _)
    intro outcome w₁ hw₁
    refine .bind ((ih w₁).mono (fun v hv => hw₁.handedOver hv) fun answer w₂ hw₂ => ?_)
    have hdone := hw₁.handedOver hw₂
    rcases answer with error | ⟨rotated, failures⟩
    · exact hdone
    · cases outcome <;> exact ⟨hdone, hdone⟩

def Swept (outside : Outside) (w v : World) : Prop :=
  Store.HandedOver (dueAlgs w.published.snapshot (outside w.moment).now) w.store v.store

theorem swept_of_eq (h : v.store = w.store) : Swept outside w v := by
  unfold Swept
  rw [h]
  exact .refl _ _

theorem rotateExpired_runs (w : World) : rotateExpired.Runs outside (Swept outside w) w fun _ w' =>
    Swept outside w w' := by
  refine .bind (runs_observe (fun v hv => swept_of_eq hv.store) (.bind (runs_snapshot ?_ ?_)))
  · exact swept_of_eq rfl
  refine .bind ((rotateEach_runs _ w.tick).mono (fun _ hv => hv) fun answer w₁ hw₁ => ?_)
  rcases answer with error | ⟨rotated, failures⟩
  · exact hw₁
  · cases hf : failures.isEmpty <;> simp only [hf] <;> exact ⟨hw₁, hw₁⟩

theorem sweep_runs (t : Task) (now : Nat) (w : World) :
    (t.turn now .sweep).Runs outside (Swept outside w) w fun _ w' => Swept outside w w' := by
  refine .bind (.bind (.attempt ((rotateExpired_runs w).mono (fun _ hv => hv) fun outcome w₁ hw₁ => ?_)))
  have hreport (events : List Event) : (report events).Runs outside (Swept outside w) w₁
      fun outcome w' => match outcome with
        | .error _ => Swept outside w w'
        | .ok _ => (Pure.pure { t with nextTick := now + t.interval } : Action Task).Runs outside
            (Swept outside w) w' fun _ w' => Swept outside w w' :=
    runs_report (fun v hv => by rwa [Swept, hv.store]) ⟨hw₁, hw₁⟩
  cases outcome with
  | error error => exact hreport _
  | ok rotated =>
    cases hr : rotated.isEmpty <;> simp only [hr]
    · exact hreport _
    · exact ⟨hw₁, hw₁, hw₁⟩

end sweep

theorem active_expired_of_mem_dueAlgs {s : Snapshot} {now : Time} (h : alg ∈ dueAlgs s now) :
    ∃ key, s.active? alg = some key ∧ key.record.isExpiredAt now = true := by
  have hany := (List.mem_filter.mp h).2
  cases hkey : s.active? alg with
  | none =>
    rw [hkey] at hany
    cases hany
  | some key =>
    rw [hkey] at hany
    exact ⟨key, rfl, hany⟩

theorem dueAlgs_nodup (s : Snapshot) (now : Time) : (dueAlgs s now).Nodup :=
  (show Alg.all.Nodup by decide).filter _

/-- What a sweep has done to one algorithm: nothing, or it has put one key in the place of one that has
expired or, if the snapshot in use has been overtaken, of another one. -/
theorem Swept.sameOf_or_replaced (h : Swept outside v v') (hv : Tracks v) (alg : Alg) :
    Store.SameOf alg v.store v'.store ∨ ∃ new old, v.store.Replaced alg new old v'.store ∧
      ((∃ o, old = some o ∧ o.isExpiredAt (outside v.moment).now = true) ∨ Overtaken v alg) := by
  refine (Store.HandedOver.sameOf_or_replaced h (dueAlgs_nodup _ _) alg).imp_right ?_
  rintro ⟨hdue, new, old, hreplaced⟩
  obtain ⟨key, hkey, hexpired⟩ := active_expired_of_mem_dueAlgs hdue
  refine ⟨new, old, hreplaced, ?_⟩
  refine (hv.newest alg key hkey).imp_left fun hnewest => ?_
  exact ⟨key.record, (hreplaced.deactivated_mem hnewest).1, hexpired⟩

/-- What a sweep puts out of use has expired, and each key that has is replaced by one new key at most.
The exception are algorithms for which a key has been stored and not published. There are none after a
reload or a rotation that has gone well. -/
theorem sweeps_retire_expired_or_overtaken (outside : Outside) (store : Store) (v v' : World)
    (hv : Proceeds outside (World.fresh store) v)
    (hs : rotateExpired.Passes outside v v' ∨ ∃ t now, (Task.turn t now .sweep).Passes outside v v') :
    (∀ r ∈ v.store.records, r.isActive = true → r.deactivated ∈ v'.store.records →
      r.isExpiredAt (outside v.moment).now = true ∨ Overtaken v r.alg) ∧
    (∀ alg, Store.SameOf alg v.store v'.store ∨ ∃ new old, v.store.Replaced alg new old v'.store ∧
      ((∃ o, old = some o ∧ o.isExpiredAt (outside v.moment).now = true) ∨ Overtaken v alg)) ∧
    (∀ u alg, reload.run outside v = (.ok (), u) → ¬ Overtaken u alg) ∧
    ∀ alg kid u, (rotate alg).run outside v = (.ok kid, u) → ∀ other, ¬ Overtaken u other := by
  have htracks := (invariant_tracks outside).proceeds (tracks_fresh store) hv
  have hsettled := (invariant_settled outside).proceeds Published.settled_fresh hv
  have hswept : Swept outside v v' := by
    rcases hs with hp | ⟨t, now, hp⟩
    · exact (rotateExpired_runs v).passes hp
    · exact (sweep_runs t now v).passes hp
  refine ⟨fun r hr hactive hd => ?_, hswept.sameOf_or_replaced htracks, fun u alg hrun => ?_, ?_⟩
  · rcases hswept.sameOf_or_replaced htracks r.alg with hsame | ⟨new, old, hreplaced, hwhy⟩
    · exact absurd ((hsame r.deactivated rfl).mp hd) (Store.deactivated_not_mem hr hactive)
    · refine hwhy.imp_left fun ⟨o, ho, hexpired⟩ => ?_
      rw [hreplaced.old_eq hr rfl hactive hd] at ho
      exact Option.some.inj ho ▸ hexpired
  · have hend := (@reload_runs outside v).ends.1
    rw [hrun] at hend
    have htaken := hend.taken hsettled
    rw [← hend.store] at htaken
    exact htaken.not_overtaken alg
  · intro alg kid u hrun
    have hend := (@rotate_runs outside alg v).ends
    rw [hrun] at hend
    exact (hend.taken hsettled).not_overtaken

def expiredStore : Store := Store.empty.insert { Sample.record with expiresAt := some ⟨1650000000, 0⟩ }

/-- Nothing fails, but for the decrypting of keys from some moment on. Each moment has its own chance. -/
def failingFrom (start : Nat) : Outside := fun moment =>
  { Sample.setting with
    random := List.replicate 12 (UInt8.ofNat moment)
    encryptor := if moment < start then .plain else { Encryptor.plain with decrypt _ := .error .decryption } }

/-- The first sweep after a reload, on a store whose key has expired. -/
theorem sweep_of_first_retires_expired :
    let v := (Operation.reload.action.run (failingFrom 100) (World.fresh expiredStore)).2
    let v' := (rotateExpired.run (failingFrom 100) v).2
    v'.store.size = 2 ∧ ∀ r ∈ v.store.records, r.isActive = true → r.deactivated ∈ v'.store.records →
      r.isExpiredAt (failingFrom 100 v.moment).now = true := by
  intro v v'
  have hreached : Proceeds (failingFrom 100) (World.fresh expiredStore) v :=
    .operation .refl .reload (Action.passes_end _ _)
  have hretired := (sweeps_retire_expired_or_overtaken (failingFrom 100) expiredStore v v' hreached
    (.inl (rotateExpired.passes_end v))).1
  have hcurrent : ∀ r ∈ v.store.records, ¬ Overtaken v r.alg := by decide +kernel
  exact ⟨by decide +kernel, fun r hr hactive hd => (hretired r hr hactive hd).resolve_right (hcurrent r hr)⟩

/-- Where a sweep has stored a new key and has not published it, the next one puts that key out of use,
which has not expired. -/
theorem sweeps_retire_unexpired_key : ¬ ∀ (outside : Outside) (store : Store) (v v' : World),
    Proceeds outside (World.fresh store) v → rotateExpired.Passes outside v v' →
      ∀ r ∈ v.store.records, r.isActive = true → r.deactivated ∈ v'.store.records →
        r.isExpiredAt (outside v.moment).now = true := by
  intro h
  let loaded := (Operation.reload.action.run (failingFrom 2) (World.fresh expiredStore)).2
  let v := (Operation.rotateExpired.action.run (failingFrom 2) loaded).2
  have hreached : Proceeds (failingFrom 2) (World.fresh expiredStore) v :=
    .operation (.operation .refl .reload (Action.passes_end _ _)) .rotateExpired (Action.passes_end _ _)
  have hretired : ∃ r ∈ v.store.records, r.isActive = true ∧
      r.deactivated ∈ (rotateExpired.run (failingFrom 2) v).2.store.records ∧
        r.isExpiredAt (failingFrom 2 v.moment).now = false := by decide +kernel
  obtain ⟨r, hr, hactive, hd, hexpired⟩ := hretired
  rw [h (failingFrom 2) expiredStore v _ hreached (Action.passes_end _ v) r hr hactive hd] at hexpired
  cases hexpired

end Keyring.Manager
