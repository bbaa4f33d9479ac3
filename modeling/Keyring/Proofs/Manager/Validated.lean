import Keyring.Proofs.Manager.Lifetimes
import Keyring.Proofs.Manager.ReadThrough

/-!
Rotations under a configuration that has been validated. The check at the start refuses a lifetime of zero and
lets every other one pass, also one whose end the calendar does not cover. Main statement: that is the only thing
that the policy is still to blame for when a rotation fails, and then the rotation cannot go well at all.
-/
set_option autoImplicit false

namespace Keyring

def KeyError.IsPolicy : KeyError → Prop
  | .policy _ _ => True
  | _ => False

namespace Manager
open Manager.Action

variable {outside : Outside} {alg : Alg} {w w' : World} {ttl : Duration}

/-- The policy alone fails with errors of the policy: the making of keys and the encryptor do not. -/
structure Sparing (outside : Outside) : Prop where
  generate : ∀ moment alg error, (outside moment).generate alg = .error error → ¬ error.IsPolicy
  encrypt : ∀ moment nonce plaintext error,
    (outside moment).encryptor.encrypt nonce plaintext = .error error → ¬ error.IsPolicy
  decrypt : ∀ moment sealed error, (outside moment).encryptor.decrypt sealed = .error error → ¬ error.IsPolicy

theorem toDer_not_policy {key : PrivateKey} {error : KeyError} (h : Pkcs8.toDer key = .error error) :
    ¬ error.IsPolicy := by
  simp only [Pkcs8.toDer] at h
  split at h
  · cases h
    exact id
  · split at h
    · cases h
    · cases h
      exact id

theorem ofDer_not_policy {der : Bytes} {error : KeyError} (h : Pkcs8.ofDer der = .error error) :
    ¬ error.IsPolicy := by
  simp only [Pkcs8.ofDer] at h
  split at h
  · cases h
    exact id
  · split at h
    · cases h
      exact id
    · cases h
      exact id
    · cases h

theorem list_not_policy {s : Setting} {store : Store} {error : KeyError} (h : s.list store = .error error) :
    ¬ error.IsPolicy := by
  unfold Setting.list at h
  split at h
  · cases h
    exact id
  · cases h

theorem setting_rotate_not_policy {s : Setting} {store : Store} {new : Record} {old : Option Record} {error : KeyError}
    (h : s.rotate store new old = .error error) : ¬ error.IsPolicy := by
  unfold Setting.rotate at h
  split at h
  · cases h
    exact id
  · split at h
    · cases h
      exact id
    · cases h

section sparing

variable (hs : Sparing outside)
include hs

theorem ofRecord_not_policy {moment : Nat} {r : Record} {error : KeyError}
    (h : CachedKey.ofRecord (outside moment).encryptor r = .error error) : ¬ error.IsPolicy := by
  unfold CachedKey.ofRecord at h
  cases hder : (outside moment).encryptor.decrypt r.encryptedKey with
  | error e =>
    rw [hder] at h
    cases h
    exact hs.decrypt moment _ _ hder
  | ok der =>
    simp only [hder] at h
    cases hkey : Pkcs8.ofDer der with
    | error e =>
      simp only [hkey] at h
      cases h
      exact ofDer_not_policy hkey
    | ok key =>
      simp only [hkey] at h
      split at h
      · cases h
      · cases h
        exact id

theorem reload_not_policy {error : KeyError} (h : reload.run outside w = (.error error, w')) : ¬ error.IsPolicy := by
  have hnext : nextSnapshot outside w = .error error := by
    rcases @reload_takes outside w with ⟨e, hnext, he⟩ | ⟨s, -, hok, -⟩
    · rw [h] at he
      cases he
      exact hnext
    · rw [h] at hok
      cases hok
  unfold nextSnapshot at hnext
  cases hl : (outside w.moment).list w.store with
  | error e =>
    rw [hl] at hnext
    cases hnext
    exact list_not_policy hl
  | ok records =>
    rw [hl] at hnext
    obtain ⟨-, r, -, -, -, hr⟩ := (Snapshot.extend_eq_error_iff .empty).mp hnext
    exact ofRecord_not_policy hs hr

theorem makeKey_cases (alg : Alg) (w : World) :
    (∃ error w', (makeKey alg).run outside w = (.error error, w') ∧ ¬ error.IsPolicy) ∨
      ∃ key der sealed, (outside w.moment).generate alg = .ok key ∧ Pkcs8.toDer key = .ok der ∧
        (outside (w.moment + 1)).isInjected .beforeEncrypt = false ∧
        (outside (w.moment + 2)).encryptor.encrypt (outside (w.moment + 2)).nonce der = .ok sealed := by
  have hfailed {error : KeyError} (h : ((makeKey alg).run outside w).1 = .error error) (hnot : ¬ error.IsPolicy) :
      ∃ error w', (makeKey alg).run outside w = (.error error, w') ∧ ¬ error.IsPolicy :=
    ⟨error, _, Prod.ext h rfl, hnot⟩
  have houtcome := @makeKey_outcome outside alg w
  cases hkey : (outside w.moment).generate alg with
  | error error =>
    rw [hkey] at houtcome
    exact .inl (hfailed houtcome (hs.generate _ _ _ hkey))
  | ok key =>
  cases hder : Pkcs8.toDer key with
  | error error =>
    simp only [hkey, Except.bind, hder] at houtcome
    exact .inl (hfailed houtcome (toDer_not_policy hder))
  | ok der =>
  simp only [hkey, Except.bind, hder] at houtcome
  cases hpoint : (outside (w.moment + 1)).isInjected .beforeEncrypt with
  | true =>
    rw [hpoint, if_pos rfl] at houtcome
    exact .inl (hfailed houtcome id)
  | false =>
  rw [hpoint, if_neg Bool.false_ne_true] at houtcome
  cases hsealed : (outside (w.moment + 2)).encryptor.encrypt (outside (w.moment + 2)).nonce der with
  | error error => exact .inl (hfailed (houtcome.trans hsealed) (hs.encrypt _ _ _ _ hsealed))
  | ok sealed => exact .inr ⟨key, der, sealed, rfl, hder, rfl, hsealed⟩

theorem makesKey_or_hindered (alg : Alg) (httl : grantedTtl.run outside w = (.ok ttl, w.tick)) :
    (∃ error, ((prepare alg).run outside w).1 = .error error ∧ ¬ error.IsPolicy) ∨
      ∃ sealed, MakesKey outside alg w sealed := by
  rw [prepare, run_bind_of_ok _ httl]
  cases hl : (outside (w.moment + 1)).listFault with
  | some error =>
    rw [run_bind, list_run_of_fault (w := w.tick) hl]
    exact .inl ⟨_, rfl, id⟩
  | none =>
    rw [run_bind_of_ok _ (list_run_of_ok (w := w.tick) hl)]
    rcases makeKey_cases hs alg { w.tick.tick with listCalls := w.listCalls + 1 } with
      ⟨error, v, hkey, hnot⟩ | ⟨key, der, sealed, hkey, hder, hpoint, hsealed⟩
    · exact .inl ⟨error, congrArg Prod.fst (run_bind_of_error _ hkey), hnot⟩
    · exact .inr ⟨sealed, hl, ⟨key, der, hkey, hder, hsealed⟩, hpoint⟩

/-- How the preparations of a rotation come out under a lifetime. -/
inductive PrepareOutcome (outside : Outside) (ttl : Duration) (w : World) :
    Except KeyError (Record × Option Record) → Prop where
  | hindered (error : KeyError) (h : ¬ error.IsPolicy) : PrepareOutcome outside ttl w (.error error)
  | refused (h : ¬ Grantable (clock outside w) ttl) :
      PrepareOutcome outside ttl w (.error (.policy (ttlFault ttl) .absent))
  | ready (new : Record) (old : Option Record) (h : Grantable (clock outside w) ttl) :
      PrepareOutcome outside ttl w (.ok (new, old))

theorem prepare_cases (alg : Alg) (hp : (outside w.moment).policy = .ok ttl)
    (hnow : (clock outside w).Representable) : PrepareOutcome outside ttl w ((prepare alg).run outside w).1 := by
  by_cases hrefused : ttl.toNanos = 0 ∨ Time.greatestSpan < ttl.toNanos
  · rw [prepare, run_bind, grantedTtl_refused hp hrefused]
    refine .refused fun hg => ?_
    have := hg.1
    have := hg.le_greatestSpan hnow
    omega
  have hpositive : 0 < ttl.toNanos := by omega
  have hspan : ttl.toNanos ≤ Time.greatestSpan := by omega
  have httl := grantedTtl_granted hp hpositive hspan
  rcases makesKey_or_hindered hs alg httl with ⟨error, herror, hnot⟩ | ⟨sealed, hmakes⟩
  · rw [herror]
    exact .hindered error hnot
  by_cases hgrantable : Grantable (clock outside w) ttl
  · obtain ⟨t, hadd⟩ := hgrantable.exists_add?
    cases hpoint : (outside (w.moment + 6)).isInjected .beforeStore with
    | false =>
      rw [hmakes.prepare_granted hpoint hp hpositive hspan hadd]
      exact .ready _ _ hgrantable
    | true =>
      have hinjected : (outside (atClock w).tick.moment).isInjected .beforeStore = true := hpoint
      rw [hmakes.prepare_run httl, run_bind_of_ok _ (makeRecord_run_of_some (w := atClock w) hadd),
        run_bind_of_error _ (by rw [failPoint_run, hinjected]; rfl)]
      exact .hindered _ id
  · obtain ⟨v, hv⟩ := hmakes.prepare_refused hp hgrantable
    rw [hv]
    exact .refused hgrantable

theorem rotate_not_policy_of_ready {new : Record} {old : Option Record} {error : KeyError} {v : World}
    (hready : (prepare alg).run outside w = (.ok (new, old), v))
    (hrun : (rotate alg).run outside w = (.error error, w')) : ¬ error.IsPolicy := by
  obtain ⟨u, hu, -⟩ := rotate_failed hrun
  rw [rotateUnreported_eq, run_bind_of_ok _ hready] at hu
  simp only [run_bind, rotateStore_run] at hu
  cases hr : (outside v.moment).rotate v.store new (old.map Record.deactivated) with
  | error e =>
    rw [hr] at hu
    cases hu
    exact setting_rotate_not_policy hr
  | ok store =>
    rw [hr] at hu
    have hfailed : (publish new.kid).run outside { refusal v with store := store } = (.error error, u) := hu
    cases publish_failed hfailed with
    | injected h => exact id
    | unloaded h => exact reload_not_policy hs h

/-- Under a lifetime that can be granted no rotation fails with an error of the policy. Under any other one each
fails and changes nothing, and only the lifetime itself is blamed on the policy. -/
theorem rotate_cases {outcome : Except KeyError String} (hp : (outside w.moment).policy = .ok ttl)
    (hnow : (clock outside w).Representable) (hrun : (rotate alg).run outside w = (outcome, w')) :
    (Grantable (clock outside w) ttl → ∀ error, outcome = .error error → ¬ error.IsPolicy) ∧
    (¬ Grantable (clock outside w) ttl → w'.store = w.store ∧ w'.published = w.published ∧
      ∃ error, outcome = .error error ∧ (error.IsPolicy → error = .policy (ttlFault ttl) .absent)) := by
  have hcases := prepare_cases hs alg hp hnow
  have hintact := (@prepare_runs outside alg w).ends.1
  cases hprepared : (prepare alg).run outside w with
  | mk prepared v =>
  rw [hprepared] at hcases hintact
  cases hcases with
  | hindered error hnot =>
    rw [rotate_of_prepare_error hprepared] at hrun
    cases hrun
    refine ⟨fun _ e he => ?_, fun _ => ⟨hintact.store, hintact.published, error, rfl, fun h => absurd h hnot⟩⟩
    cases he
    exact hnot
  | refused hnot =>
    rw [rotate_of_prepare_error hprepared] at hrun
    cases hrun
    exact ⟨fun hg => absurd hg hnot, fun _ => ⟨hintact.store, hintact.published, _, rfl, fun _ => rfl⟩⟩
  | ready new old hg =>
    refine ⟨fun _ error herror => ?_, fun hnot => absurd hg hnot⟩
    rw [herror] at hrun
    exact rotate_not_policy_of_ready hs hprepared hrun

end sparing

/-- The start under a validated configuration leaves open whether the calendar covers the end of the lifetime. No
rotation fails on account of the policy where it does, as it does for a quarter of a million years after the year
9999; and where it does not, each one fails and changes nothing. -/
theorem validated_rotations_fail_beyond_calendar {config : Config} {outcome : Except KeyError String}
    (hv : config.validate = .ok ()) (hp : (outside w.moment).policy = config.rotationPolicy)
    (hs : Sparing outside) (hnow : (clock outside w).HasFourDigitYear)
    (hrun : (rotate alg).run outside w = (outcome, w')) :
    ((∃ t : Time, t.Representable ∧ t.toNanos = (clock outside w).toNanos + config.keyTtl.toNanos) →
      ∀ fault source, outcome ≠ .error (.policy fault source)) ∧
    ((¬ ∃ t : Time, t.Representable ∧ t.toNanos = (clock outside w).toNanos + config.keyTtl.toNanos) →
      w'.store = w.store ∧ w'.published = w.published ∧ ∃ error, outcome = .error error ∧
        (error.IsPolicy → error = .policy .ttlOutOfRange .absent)) ∧
    (config.keyTtl.toNanos ≤ Time.spanAfterYear9999 →
      ∃ t : Time, t.Representable ∧ t.toNanos = (clock outside w).toNanos + config.keyTtl.toNanos) := by
  have hpositive : 0 < config.keyTtl.toNanos := by
    refine Nat.pos_of_ne_zero fun hzero => ?_
    rw [← Duration.isZero_iff, keyTtl_not_zero hv] at hzero
    cases hzero
  obtain ⟨hgranted, hrefused⟩ := rotate_cases hs hp hnow.representable hrun
  refine ⟨fun hsum fault source herror => ?_, fun hnone => ?_, hnow.exists_sum⟩
  · exact hgranted ⟨hpositive, hsum⟩ _ herror trivial
  · rw [← ttlFault_of_positive hpositive]
    exact hrefused fun hg => hnone hg.2

/-- A lifetime of 300 million years, which is longer than any span that can be added to a moment. -/
def Sample.overlong : Config := { Config.standard with keyTtl := .days 109575000000 }

theorem Sample.sparing (ttl : Duration) : Sparing fun _ => Sample.granting ttl := ⟨nofun, nofun, nofun⟩

theorem Sample.overlong_fails (w : World) :
    ((rotate .rs256).run (fun _ => Sample.granting Sample.overlong.keyTtl) w).1 =
      .error (.policy .ttlOutOfRange .absent) := by
  have hprepared : (prepare .rs256).run (fun _ => Sample.granting Sample.overlong.keyTtl) w =
      (.error (.policy (ttlFault Sample.overlong.keyTtl) .absent), w.tick) := by
    rw [prepare, run_bind, grantedTtl_refused rfl (.inr (by decide))]
  rw [rotate_of_prepare_error hprepared, ttlFault_of_positive (by decide)]

/-- The standard configuration, and one that is as valid and can make no key. -/
theorem standard_rotates_and_overlong_does_not :
    let run (c : Config) :=
      (rotate .rs256).run (fun _ => Sample.granting c.keyTtl) (World.fresh Fleet.Sample.store)
    (∀ fault source, (run Config.standard).1 ≠ .error (.policy fault source)) ∧
    Sample.overlong.validate = .ok () ∧ (run Sample.overlong).2.store = Fleet.Sample.store := by
  intro run
  have hnow : Fleet.Sample.setting.now.HasFourDigitYear := ⟨by decide, by decide, by decide⟩
  have hrotated (c : Config) (hv : c.validate = .ok ()) :=
    @validated_rotations_fail_beyond_calendar (fun _ => Sample.granting c.keyTtl) .rs256
      (World.fresh Fleet.Sample.store) _ c _ hv rfl (Sample.sparing c.keyTtl) hnow Prod.mk.eta.symm
  refine ⟨?_, rfl, ?_⟩
  · obtain ⟨hgranted, -, hsum⟩ := hrotated Config.standard rfl
    exact hgranted (hsum (by decide))
  · obtain ⟨hgranted, hrefused, -⟩ := hrotated Sample.overlong rfl
    have hnone (hsum : _) := hgranted hsum .ttlOutOfRange .absent (Sample.overlong_fails _)
    exact (hrefused hnone).1

/-- So validation does not refuse all that no rotation can go well with. -/
theorem validated_configuration_may_never_rotate : ¬ ∀ (config : Config) (outside : Outside) (alg : Alg)
    (w : World), config.validate = .ok () → (∀ moment, (outside moment).policy = config.rotationPolicy) →
    (∀ moment, (outside moment).now.HasFourDigitYear) →
      ∀ fault source, ((rotate alg).run outside w).1 ≠ .error (.policy fault source) := by
  intro h
  have hnow : Fleet.Sample.setting.now.HasFourDigitYear := ⟨by decide, by decide, by decide⟩
  exact h Sample.overlong (fun _ => Sample.granting Sample.overlong.keyTtl) .rs256 (World.fresh .empty) rfl
    (fun _ => rfl) (fun _ => hnow) .ttlOutOfRange .absent (Sample.overlong_fails _)

end Manager
end Keyring
