import Keyring.Proofs.Manager.Attempts
import Keyring.Proofs.Manager.Lifetimes
import Keyring.Proofs.Store.Rotation

set_option autoImplicit false

namespace Keyring.Manager
open Manager.Action

variable {outside : Outside} {alg : Alg} {w w' v : World} {new : Record} {old : Option Record}

section draw

variable {ttl : Duration} {sealed : EncryptedKey}

theorem grantedTtl_passes (h : grantedTtl.run outside w = (.ok ttl, w')) : w' = w.tick := by
  rw [grantedTtl, run_bind_of_ok _ (run_observe w)] at h
  obtain ⟨resolved, v, hresolved, h⟩ := run_bind_eq_ok h
  rw [run_ofExcept] at hresolved
  obtain rfl : w.tick = v := congrArg Prod.snd hresolved
  split at h
  · cases h
  · exact (congrArg Prod.snd h).symm

theorem makeKey_passes (h : (makeKey alg).run outside w = (.ok sealed, w')) : w' = w.tick.tick.tick := by
  rw [makeKey, run_bind_of_ok _ (run_observe w)] at h
  obtain ⟨key, w₁, hkey, h⟩ := run_bind_eq_ok h
  obtain ⟨der, w₂, hder, h⟩ := run_bind_eq_ok h
  obtain ⟨_, w₃, hpoint, h⟩ := run_bind_eq_ok h
  rw [run_ofExcept] at hkey hder
  rw [failPoint_run] at hpoint
  rw [run_bind_of_ok _ (run_observe w₃), run_ofExcept] at h
  obtain rfl : w.tick = w₁ := congrArg Prod.snd hkey
  obtain rfl : w.tick = w₂ := congrArg Prod.snd hder
  obtain rfl : w.tick.tick = w₃ := congrArg Prod.snd hpoint
  exact (congrArg Prod.snd h).symm

theorem makeRecord_draws (h : (makeRecord alg ttl sealed).run outside w = (.ok new, w')) :
    new.kid = KeyId.ofRandom alg (outside w.moment).random ∧ w' = w.tick := by
  cases hexpiry : (outside w.moment).now.add? ttl with
  | none =>
    rw [makeRecord_run_of_none hexpiry] at h
    cases h
  | some expiry =>
    rw [makeRecord_run_of_some hexpiry] at h
    cases h
    exact ⟨rfl, rfl⟩

/-- What a rotation hands in bears the id that was drawn when it looked at the clock. -/
theorem prepare_draws (h : (prepare alg).run outside w = (.ok (new, old), v)) :
    new.kid = newKid outside alg w ∧ v = (atClock w).tick.tick := by
  obtain ⟨ttl, w₁, httl, h⟩ := run_bind_eq_ok h
  obtain ⟨records, w₂, hlist, h⟩ := run_bind_eq_ok h
  obtain ⟨sealed, w₃, hsealed, h⟩ := run_bind_eq_ok h
  obtain ⟨record, w₄, hrecord, h⟩ := run_bind_eq_ok h
  obtain ⟨_, w₅, hpoint, hpair⟩ := run_bind_eq_ok h
  obtain rfl := grantedTtl_passes httl
  have hlisted : w₂ = { w.tick.tick with listCalls := w.listCalls + 1 } := (congrArg Prod.snd hlist).symm
  obtain rfl : w₃ = atClock w := by
    rw [makeKey_passes hsealed, hlisted]
    rfl
  obtain ⟨hkid, rfl⟩ := makeRecord_draws hrecord
  rw [failPoint_run] at hpoint
  cases hpair
  exact ⟨hkid, (congrArg Prod.snd hpoint).symm⟩

end draw

theorem Setting.rotate_taken (s : Setting) {store : Store} {records : List Record}
    (hperm : records.Perm store.records) (htaken : store.contains new.kid = true) :
    s.rotate store new ((Record.newestActive? alg records).map Record.deactivated) =
      .error (.storage (s.rotateFault.getD (.conflict new.kid))) := by
  have hconflict : store.rotate new ((Record.newestActive? alg records).map Record.deactivated) =
      .error (.conflict new.kid) := by
    refine Store.rotate_eq_conflict_iff.mpr ⟨fun o ho => ?_, rfl, Option.isSome_iff_ne_none.mp htaken⟩
    obtain ⟨r, hr, rfl⟩ := Option.map_eq_some_iff.mp ho
    have hstored := Store.contains_of_mem (hperm.mem_iff.mp (Record.isNewestActive_of_newestActive? hr).mem)
    rwa [Record.deactivated_kid, ← Option.isSome_iff_ne_none]
  rw [Setting.rotate]
  cases s.rotateFault with
  | some error => rfl
  | none => rw [hconflict]; rfl

theorem rotate_of_refusal {error : KeyError} (hprepared : (prepare alg).run outside w = (.ok (new, old), v))
    (h : (outside v.moment).rotate v.store new (old.map Record.deactivated) = .error error) :
    (rotate alg).run outside w = (.error error, (refusal v).report [.rotationFailed alg error.message]) := by
  have hrun : (rotateUnreported alg).run outside w = (.error error, refusal v) := by
    rw [rotateUnreported_eq, run_bind_of_ok _ hprepared, run_bind, rotateStore_run, h]
  rw [rotate, run_bind, run_attempt, hrun]
  rfl

/-- The rotation has failed and nothing has changed. If it has got as far as the store, and that has not failed by
itself, then it has failed because the id is taken. -/
def Collides (outside : Outside) (alg : Alg) (w : World) : Prop :=
  ∃ error w', (rotate alg).run outside w = (.error error, w') ∧ w'.store = w.store ∧ w'.published = w.published ∧
    (w'.rotateCalls ≠ w.rotateCalls → (outside (w.moment + 7)).rotateFault = none →
      error = .storage (.conflict (newKid outside alg w)))

theorem collides_of_taken (htaken : w.store.contains (newKid outside alg w) = true) : Collides outside alg w := by
  have hcalls := prepare_handsInNothing alg outside w
  have hends := (@prepare_runs outside alg w).ends
  cases hprepared : (prepare alg).run outside w with
  | mk outcome v =>
  rw [hprepared] at hcalls hends
  obtain ⟨hintact, hold⟩ := hends
  rcases outcome with error | ⟨new, old⟩
  · exact ⟨error, _, rotate_of_prepare_error hprepared, hintact.store, hintact.published,
      fun hne => absurd hcalls hne⟩
  · obtain ⟨-, -, records, hperm, rfl⟩ := hold new old rfl
    obtain ⟨hkid, rfl⟩ := prepare_draws hprepared
    rw [← hkid] at htaken
    refine ⟨_, _, rotate_of_refusal hprepared ((outside _).rotate_taken hperm htaken), hintact.store,
      hintact.published, fun _ hfault => ?_⟩
    rw [← hkid, show (outside (atClock w).tick.tick.moment).rotateFault = none from hfault]
    rfl

/-- An id tells the algorithm and the random bytes that it was made from, and no other pair makes the same one. A
rotation that draws an id which is taken fails on account of it and changes nothing, so that no key is ever put in
the place of another one. -/
theorem ids_tell_their_bytes_and_never_overwrite :
    (∀ alg alg' bs bs', KeyId.ofRandom alg bs = KeyId.ofRandom alg' bs' ↔ alg = alg' ∧ bs = bs') ∧
    (∀ alg bs, bs.length = KeyId.randomLength → KeyId.Tells (KeyId.ofRandom alg bs) alg bs) ∧
    ∀ outside alg w, w.store.contains (newKid outside alg w) = true → Collides outside alg w :=
  ⟨fun _ _ _ _ => KeyId.ofRandom_eq_iff, fun alg _ => KeyId.tells_ofRandom alg, fun _ _ _ => collides_of_taken⟩

/-- A second rotation that draws what the first one drew, although the base64 of the bytes holds underscores. -/
theorem second_draw_of_same_bytes_collides :
    let outside : Outside := fun _ => { Fleet.Sample.setting with random := List.replicate 12 0xFF }
    let w := ((rotate .rs256).run outside (World.fresh Fleet.Sample.store)).2
    KeyId.alg? (newKid outside .rs256 w) = some .rs256 ∧
      ((rotate .rs256).run outside w).1 = .error (.storage (.conflict (newKid outside .rs256 w))) ∧
      ((rotate .rs256).run outside w).2.store = w.store := by
  intro outside w
  obtain ⟨-, htells, hcollides⟩ := ids_tell_their_bytes_and_never_overwrite
  have htaken : w.store.contains (newKid outside .rs256 w) = true := by decide +kernel
  have hcalls : ((rotate .rs256).run outside w).2.rotateCalls ≠ w.rotateCalls := by decide +kernel
  obtain ⟨error, w', hrun, hstore, -, hconflict⟩ := hcollides outside .rs256 w htaken
  rw [hrun] at hcalls ⊢
  rw [hconflict hcalls rfl]
  exact ⟨(htells .rs256 _ rfl).told, rfl, hstore⟩

end Keyring.Manager
