import Keyring.Proofs.Manager.OneActive
import Keyring.Proofs.Manager.Remembered

set_option autoImplicit false

namespace Keyring.Manager

open Manager.Action Fleet

variable {outside : Outside} {alg : Alg} {w w' v v' : World} {error : KeyError}

theorem TakenBetween.get? {store : Store} {s : Snapshot} (h : TakenBetween outside w w' store s)
    {r : Record} (hr : r ∈ store.records) : ∃ key, s.get? r.kid = some key ∧ key.record = r := by
  obtain ⟨moment, records, events, -, -, hperm, hs⟩ := h
  obtain ⟨key, hkey, hbecame⟩ := (Snapshot.reflects_of_listing hs hperm).get r hr
  have hlisted := (Snapshot.opened_of_mem_keys hs (Snapshot.mem_of_get? hkey).1).1
  exact ⟨key, hkey, store.eq_of_kid_eq (hperm.mem_iff.mp hlisted) hr hbecame.kid_eq⟩

/-- Why a key that is stored has not been published: a failure was injected at the last moment, or the
reload has failed. -/
inductive Withheld (outside : Outside) (w : World) : KeyError → World → Prop where
  | injected (h : (outside w.moment).isInjected .beforeReload = true) :
      Withheld outside w (.internal .beforeReload) w.tick
  | unloaded {error : KeyError} {w' : World} (h : reload.run outside w.tick = (.error error, w')) :
      Withheld outside w error w'

/-- A rotation that the store has taken in as a whole, and whose key has not been published after that. -/
structure Unpublished (outside : Outside) (alg : Alg) (error : KeyError) (w : World) (new : Record)
    (old : Option Record) (w' : World) : Prop where
  handover : w.store.Handover alg new old w'.store
  newest : ∀ o, old = some o → Record.IsNewestActive alg w.store.records o
  stored : ∃ v v', w.Intact v ∧
    (outside v.moment).rotate v.store new (old.map Record.deactivated) = .ok w'.store ∧
    Withheld outside { refusal v with store := w'.store } error v' ∧ v'.Untouched w'

section stages

theorem failPoint_run (p : FailPoint) (error : KeyError) (w : World) :
    (failPoint p error).run outside w =
      (if (outside w.moment).isInjected p then .error error else .ok (), w.tick) := by
  show (if (outside w.moment).isInjected p = true then fail error else Pure.pure ()).run outside w.tick = _
  split <;> rfl

theorem rotateStore_run (new : Record) (old : Option Record) (w : World) :
    (rotateStore new old).run outside w = match (outside w.moment).rotate w.store new old with
      | .error error => (.error error, refusal w)
      | .ok store => (.ok (), { refusal w with store := store }) := by
  let step := (Call.rotateStore new old).perform (outside w.moment) w
  show (step.1, step.2) = _
  simp only [step, Call.perform]
  cases (outside w.moment).rotate w.store new old <;> rfl

theorem publish_failed {kid : String} (h : (publish kid).run outside w = (.error error, w')) :
    Withheld outside w error w' := by
  rw [publish, run_bind, failPoint_run] at h
  cases hi : (outside w.moment).isInjected .beforeReload with
  | true =>
    rw [hi, if_pos rfl] at h
    cases h
    exact .injected hi
  | false =>
    rw [hi] at h
    simp only [Bool.false_eq_true, if_false, run_bind] at h
    cases hreload : reload.run outside w.tick with
    | mk outcome v =>
      rw [hreload] at h
      cases outcome with
      | error e =>
        cases h
        exact .unloaded hreload
      | ok _ => cases h

theorem rotateUnreported_failed (h : (rotateUnreported alg).run outside w = (.error error, w')) :
    w.Intact w' ∨ ∃ new old, Unpublished outside alg error w new old w' := by
  rw [rotateUnreported_eq, run_bind] at h
  have hprepared := (@prepare_runs outside alg w).ends
  cases hrun : (prepare alg).run outside w with
  | mk outcome v =>
  rw [hrun] at h hprepared
  obtain ⟨hv, hnew⟩ := hprepared
  rcases outcome with e | ⟨new, old⟩
  · cases h
    exact .inl hv
  obtain ⟨halg, hactive, records, hperm, rfl⟩ := hnew new old rfl
  -- nothing has changed so far, and the store's answer decides whether anything will
  simp only [run_bind, rotateStore_run] at h
  cases hr : (outside v.moment).rotate v.store new
      ((Record.newestActive? alg records).map Record.deactivated) with
  | error e =>
    rw [hr] at h
    cases h
    exact .inl (hv.trans ⟨rfl, rfl, Nat.le_succ _⟩)
  | ok store =>
    rw [hr] at h
    have hfailed : (publish new.kid).run outside { refusal v with store := store } = (.error error, w') := h
    have hend := (@publish_runs outside new.kid { refusal v with store := store }).ends
    rw [hfailed] at hend
    obtain ⟨reloaded, -, hreloaded⟩ := hend
    obtain rfl : w'.store = store := hreloaded.store
    refine .inr ⟨new, Record.newestActive? alg records, ?_, fun o ho => ?_, v, w', hv, hr,
      publish_failed hfailed, .refl w'⟩
    · exact Store.handover_of_rotate hperm halg hactive (hv.store ▸ Setting.rotate_eq_ok hr)
    · exact (Record.isNewestActive_of_newestActive? ho).congr fun a _ => hperm.mem_iff

theorem rotate_failed (h : (rotate alg).run outside w = (.error error, w')) :
    ∃ v, (rotateUnreported alg).run outside w = (.error error, v) ∧ v.Untouched w' := by
  rw [rotate, run_bind, run_attempt] at h
  cases hrun : (rotateUnreported alg).run outside w with
  | mk outcome v =>
  rw [hrun] at h
  cases outcome with
  | error e =>
    cases h
    exact ⟨v, rfl, .report v _⟩
  | ok kid => cases h

theorem Unpublished.of_untouched {new : Record} {old : Option Record}
    (h : Unpublished outside alg error w new old v) (hv : v.Untouched v') :
    Unpublished outside alg error w new old v' := by
  obtain ⟨hhandover, hnewest, u, u', hu, hr, hwithheld, hu'⟩ := h
  rw [← hv.store] at hhandover hr hwithheld
  exact ⟨hhandover, hnewest, u, u', hu, hr, hwithheld, hu'.trans hv⟩

end stages

theorem Unpublished.published {new : Record} {old : Option Record}
    (h : Unpublished outside alg error w new old w') (hw : w'.published.Settled)
    (hv : Reaches outside Store.Retains w' v) (hrun : reload.run outside v = (.ok (), v')) :
    (∃ key, v'.published.snapshot.get? new.kid = some key ∧ key.record.BecameFrom new) ∧
      (v.store = w'.store → w.store.OneActive →
        ∃ key, v'.published.snapshot.active? alg = some key ∧ key.record = new) := by
  have hsettled := (invariant_settled outside).reaches hv hw fun _ _ hv _ => hv
  have hretains := (invariant_retains outside w'.store).reaches hv (Store.retains_of_eq rfl)
    fun _ _ hv he => hv.trans he
  have hend := (@reload_runs outside v).ends.1
  rw [hrun] at hend
  have htaken := hend.taken hsettled
  constructor
  · obtain ⟨r, hr, hbecame⟩ := hretains new ((h.handover.mem_iff new).mpr (.inl rfl))
    obtain ⟨key, hkey, hrecord⟩ := htaken.get? hr
    exact ⟨key, hbecame.kid_eq ▸ hkey, hrecord ▸ hbecame⟩
  · intro hstore hone
    rw [hstore] at htaken
    exact htaken.active?_eq fun _ => h.handover.active_iff hone

/-- No rotation is ever half done. If it fails, what was published stays published, and nothing has
changed in the store unless the store has taken in the new record and put the newest active one out of
use, and the failure came after that; then the new key is published by the first reload that goes well,
and it becomes the active one if there has been only one. -/
theorem failed_rotation_is_void_or_whole (store : Store) (moves : List Move) (m : Nat) (outside : Outside)
    (alg : Alg) (error : KeyError) (w' : World)
    (h : (rotate alg).run outside (((fresh store).run moves).shared.world m) = (.error error, w')) :
    (((fresh store).run moves).shared.published m).Kept w'.published ∧
    (w'.store = ((fresh store).run moves).shared.store ∨ ∃ new old,
      Unpublished outside alg error (((fresh store).run moves).shared.world m) new old w' ∧
      ∀ v v', Reaches outside Store.Retains w' v → reload.run outside v = (.ok (), v') →
        (∃ key, v'.published.snapshot.get? new.kid = some key ∧ key.record.BecameFrom new) ∧
          (v.store = w'.store → ((fresh store).run moves).shared.store.OneActive →
            ∃ key, v'.published.snapshot.active? alg = some key ∧ key.record = new)) := by
  have hsound := sound_run (sound_fresh store) moves
  generalize (fresh store).run moves = x at *
  have hsettled : (x.shared.published m).Settled := by
    rw [hsound.published]
    exact hsound.consistent.generation_lt m
  have hkept : (x.shared.published m).Kept w'.published := by
    have hend := (@rotate_runs outside alg (x.shared.world m)).ends
    rw [h] at hend
    cases hend with
    | refused _ _ hp => exact .of_eq hp
    | unpublished _ _ _ hkept => exact hkept
  obtain ⟨v, hfailed, hv⟩ := rotate_failed h
  refine ⟨hkept, (rotateUnreported_failed hfailed).imp (fun hintact => ?_) ?_⟩
  · exact hv.store.trans hintact.store
  · rintro ⟨new, old, hunpublished⟩
    have hstored := hunpublished.of_untouched hv
    exact ⟨new, old, hstored, fun _ _ hreach hrun => hstored.published (hsettled.of_kept hkept) hreach hrun⟩

/-- A rotation that fails just before it would have published its key, and the next reload. -/
theorem failed_rotation_of_first_is_whole :
    let x := (fresh Sample.store).run (.start 0 .reload :: Sample.advances 0 5)
    let stops : Outside := fun moment =>
      { Sample.setting with isInjected := fun p => moment < 10 && p = .beforeReload }
    let w' := ((rotate .rs256).run stops (x.shared.world 0)).2
    (x.shared.published 0).Kept w'.published ∧ w'.store.size = 2 ∧ ∃ error new old,
      Unpublished stops .rs256 error (x.shared.world 0) new old w' ∧
        ∃ key, (reload.run stops w').2.published.snapshot.get? new.kid = some key ∧
          key.record.BecameFrom new := by
  intro x stops w'
  have hfails : ((rotate .rs256).run stops (x.shared.world 0)).1.toOption = none := by decide +kernel
  have hsize : w'.store.size = 2 ∧ x.shared.store.size = 1 := by decide +kernel
  have hreload : (reload.run stops w').1.toOption = some () := by decide +kernel
  cases hrun : (rotate .rs256).run stops (x.shared.world 0) with
  | mk outcome v =>
  obtain rfl : w' = v := congrArg Prod.snd hrun
  rw [hrun] at hfails
  rcases outcome with error | kid
  · obtain ⟨hkept, hsame | ⟨new, old, hunpublished, hlater⟩⟩ :=
      failed_rotation_is_void_or_whole Sample.store (.start 0 .reload :: Sample.advances 0 5) 0 stops .rs256
        error w' hrun
    · rw [hsame] at hsize
      exact absurd (hsize.1.symm.trans hsize.2) (by decide)
    · cases hloaded : reload.run stops w' with
      | mk outcome u =>
      rw [hloaded] at hreload
      rcases outcome with e | ⟨⟩
      · cases hreload
      · exact ⟨hkept, hsize.1, error, new, old, hunpublished, (hlater w' u .refl hloaded).1⟩
  · cases hfails

end Keyring.Manager
