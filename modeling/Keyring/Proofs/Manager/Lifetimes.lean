import Keyring.Proofs.Manager.Resume
import Keyring.Proofs.Snapshot.Alike
import Keyring.Proofs.Time.Sum

set_option autoImplicit false

namespace Keyring

/-- The record expires so long after its creation. It lasts from the one to the other, both included. -/
def Record.LivesFor (r : Record) (ttl : Duration) : Prop :=
  ∃ t, r.expiresAt = some t ∧ t.toNanos - r.createdAt.toNanos = ttl.toNanos ∧ r.createdAt < t ∧
    r.isExpiredAt r.createdAt = false ∧ r.isExpiredAt t = false

theorem Record.livesFor_of_add? {r : Record} {ttl : Duration} {t : Time} (hnow : r.createdAt.Representable)
    (hexpires : r.expiresAt = some t) (hadd : r.createdAt.add? ttl = some t) (hpositive : 0 < ttl.toNanos) :
    r.LivesFor ttl := by
  obtain ⟨ht, hnanos⟩ := Time.add?_eq_some_iff.mp hadd
  have hlt : r.createdAt < t := (hnow.lt_iff_toNanos_lt ht).mpr (by omega)
  refine ⟨t, hexpires, by omega, hlt, ?_, ?_⟩
  · simpa [isExpiredAt, hexpires] using fun h => Time.lt_irrefl _ (Time.lt_trans hlt h)
  · simpa [isExpiredAt, hexpires] using Time.lt_irrefl t

theorem Store.rotate_newest {s : Store} {alg : Alg} {records : List Record} {new : Record}
    (hperm : records.Perm s.records) (hfree : s.contains new.kid = false) :
    ∃ s', s.rotate new ((Record.newestActive? alg records).map Record.deactivated) = .ok s' ∧
      new ∈ s'.records ∧ ∀ r ∈ s'.records, r = new ∨ r ∈ s.records ∨ ∃ o ∈ s.records, r = o.deactivated := by
  cases hold : Record.newestActive? alg records with
  | none =>
    refine ⟨s.insert new, by simp [Store.rotate, hfree], mem_insert_self s new, fun r hr => ?_⟩
    exact (mem_insert_iff.mp hr).imp_right fun h => .inl h.1
  | some o =>
    have ho := hperm.mem_iff.mp (Record.isNewestActive_of_newestActive? hold).mem
    have hthere : s.contains o.kid = true := contains_of_mem ho
    refine ⟨(s.insert o.deactivated).insert new, by simp [Store.rotate, hthere, hfree],
      mem_insert_self _ new, fun r hr => ?_⟩
    rcases mem_insert_iff.mp hr with rfl | ⟨hr, -⟩
    · exact .inl rfl
    rcases mem_insert_iff.mp hr with rfl | ⟨hr, -⟩
    · exact .inr (.inr ⟨o, ho, rfl⟩)
    · exact .inr (.inl hr)

namespace Manager
open Manager.Action

variable {outside : Outside} {alg : Alg} {w w' : World} {sealed : EncryptedKey} {ttl : Duration}

def ttlFault (ttl : Duration) : PolicyFault := if ttl.isZero then .ttlNotPositive else .ttlOutOfRange

theorem ttlFault_of_positive (h : 0 < ttl.toNanos) : ttlFault ttl = .ttlOutOfRange :=
  if_neg fun hzero => Nat.ne_of_gt h ((Duration.isZero_iff ttl).mp hzero)

theorem grantedTtl_granted (hp : (outside w.moment).policy = .ok ttl) (hpositive : 0 < ttl.toNanos)
    (hspan : ttl.toNanos ≤ Time.greatestSpan) : grantedTtl.run outside w = (.ok ttl, w.tick) := by
  have hresolved : (outside w.moment).policy.resolve = .ok ttl := by
    rw [hp, Policy.resolve, if_neg fun hzero => Nat.ne_of_gt hpositive ((Duration.isZero_iff ttl).mp hzero)]
  rw [grantedTtl, run_bind_of_ok _ (run_observe w), run_bind, run_ofExcept, hresolved]
  simp only [if_neg (Nat.not_lt.mpr hspan)]
  exact rfl

theorem grantedTtl_refused (hp : (outside w.moment).policy = .ok ttl)
    (h : ttl.toNanos = 0 ∨ Time.greatestSpan < ttl.toNanos) :
    grantedTtl.run outside w = (.error (.policy (ttlFault ttl) .absent), w.tick) := by
  rw [grantedTtl, run_bind_of_ok _ (run_observe w), run_bind, run_ofExcept, hp, Policy.resolve]
  by_cases hzero : ttl.isZero = true
  · rw [if_pos hzero, ttlFault, if_pos hzero]
  · have hlong := h.resolve_left fun hz => hzero ((Duration.isZero_iff ttl).mpr hz)
    rw [if_neg hzero, ttlFault, if_neg hzero]
    simp only [if_pos hlong]
    exact rfl

/-- Whatever the lifetime, the steps up to the encryption of the new key go well. -/
structure MakesKey (outside : Outside) (alg : Alg) (w : World) (sealed : EncryptedKey) : Prop where
  listed : (outside (w.moment + 1)).listFault = none
  made : ∃ key der, (outside (w.moment + 2)).generate alg = .ok key ∧ Pkcs8.toDer key = .ok der ∧
    (outside (w.moment + 4)).encryptor.encrypt (outside (w.moment + 4)).nonce der = .ok sealed
  beforeEncrypt : (outside (w.moment + 3)).isInjected .beforeEncrypt = false

def atClock (w : World) : World := { w with listCalls := w.listCalls + 1, moment := w.moment + 5 }

def clock (outside : Outside) (w : World) : Time := (outside (w.moment + 5)).now

def newKid (outside : Outside) (alg : Alg) (w : World) : String :=
  KeyId.ofRandom alg (outside (w.moment + 5)).random

/-- Whatever the lifetime, no step of the rotation fails on account of anything else: the new id is free, the
store answers, and all records can be opened, that of the new key included. -/
structure Unhindered (outside : Outside) (alg : Alg) (w : World) (sealed : EncryptedKey) : Prop
    extends MakesKey outside alg w sealed where
  beforeStore : (outside (w.moment + 6)).isInjected .beforeStore = false
  stored : (outside (w.moment + 7)).rotateFault = none
  free : w.store.contains (newKid outside alg w) = false
  beforeReload : (outside (w.moment + 8)).isInjected .beforeReload = false
  relisted : (outside (w.moment + 9)).listFault = none
  opens : ∀ r, r ∈ w.store.records ∨ (r.alg = alg ∧ r.encryptedKey = sealed) →
    ∃ key, CachedKey.ofRecord (outside (w.moment + 10)).encryptor r = .ok key

theorem makeKey_run {key : PrivateKey} {der : Bytes} (hkey : (outside w.moment).generate alg = .ok key)
    (hder : Pkcs8.toDer key = .ok der) (hpoint : (outside (w.moment + 1)).isInjected .beforeEncrypt = false)
    (hsealed : (outside (w.moment + 2)).encryptor.encrypt (outside (w.moment + 2)).nonce der = .ok sealed) :
    (makeKey alg).run outside w = (.ok sealed, w.tick.tick.tick) := by
  have hinjected : (outside w.tick.moment).isInjected .beforeEncrypt = false := hpoint
  rw [makeKey, run_bind_of_ok _ (run_observe w), run_bind_of_ok _ (by rw [run_ofExcept, hkey]),
    run_bind_of_ok _ (by rw [run_ofExcept, hder]), run_bind_of_ok _ (by rw [failPoint_run, hinjected]; rfl),
    run_bind_of_ok _ (run_observe _), run_ofExcept]
  exact Prod.ext hsealed rfl

theorem list_run_of_ok (h : (outside w.moment).listFault = none) : Action.list.run outside w =
    (.ok ((outside w.moment).arrangement.arrange w.store.records),
      { w.tick with listCalls := w.listCalls + 1 }) := by
  have hanswer : (outside w.moment).list w.store = .ok ((outside w.moment).arrangement.arrange w.store.records) := by
    rw [Setting.list, h]
  exact Prod.ext hanswer rfl

theorem list_run_of_fault {error : StorageError} (h : (outside w.moment).listFault = some error) :
    Action.list.run outside w = (.error (.storage error), { w.tick with listCalls := w.listCalls + 1 }) := by
  have hanswer : (outside w.moment).list w.store = .error (.storage error) := by
    rw [Setting.list, h]
  exact Prod.ext hanswer rfl

theorem MakesKey.prepare_run (h : MakesKey outside alg w sealed)
    (httl : grantedTtl.run outside w = (.ok ttl, w.tick)) :
    (prepare alg).run outside w = (do
      let record ← makeRecord alg ttl sealed
      failPoint .beforeStore (.storage (.internal "injected failure before store rotate" .absent))
      return (record, Record.newestActive? alg ((outside (w.moment + 1)).arrangement.arrange w.store.records)) :
        Action (Record × Option Record)).run outside (atClock w) := by
  obtain ⟨key, der, hkey, hder, hsealed⟩ := h.made
  rw [prepare, run_bind_of_ok _ httl, run_bind_of_ok _ (list_run_of_ok (w := w.tick) h.listed)]
  exact run_bind_of_ok _ (makeKey_run hkey hder h.beforeEncrypt hsealed)

theorem makeRecord_run_of_none (h : (outside w.moment).now.add? ttl = none) :
    (makeRecord alg ttl sealed).run outside w = (.error (.policy .ttlOutOfRange .absent), w.tick) := by
  rw [makeRecord, run_bind_of_ok _ (run_observe w)]
  simp only [h]
  rfl

theorem makeRecord_run_of_some {expiry : Time} (h : (outside w.moment).now.add? ttl = some expiry) :
    (makeRecord alg ttl sealed).run outside w = (.ok ⟨KeyId.ofRandom alg (outside w.moment).random, alg, true,
      (outside w.moment).now, some expiry, sealed⟩, w.tick) := by
  rw [makeRecord, run_bind_of_ok _ (run_observe w)]
  simp only [h]
  rfl

theorem rotate_of_prepare_error {error : KeyError} (h : (prepare alg).run outside w = (.error error, w')) :
    (rotate alg).run outside w = (.error error, w'.report [.rotationFailed alg error.message]) := by
  have hrun : (rotateUnreported alg).run outside w = (.error error, w') := by
    rw [rotateUnreported_eq, run_bind, h]
  rw [rotate, run_bind, run_attempt, hrun]
  rfl

/-- The lifetime is positive, and the calendar covers the moment at which it ends. -/
def Grantable (now : Time) (ttl : Duration) : Prop :=
  0 < ttl.toNanos ∧ ∃ t : Time, t.Representable ∧ t.toNanos = now.toNanos + ttl.toNanos

theorem Grantable.le_greatestSpan {now : Time} (h : Grantable now ttl) (hnow : now.Representable) :
    ttl.toNanos ≤ Time.greatestSpan := by
  obtain ⟨-, t, ht, heq⟩ := h
  exact hnow.le_greatestSpan ht heq

theorem Grantable.exists_add? {now : Time} (h : Grantable now ttl) : ∃ t, now.add? ttl = some t := by
  obtain ⟨-, t, ht, heq⟩ := h
  exact ⟨t, Time.add?_eq_some_iff.mpr ⟨ht, heq⟩⟩

theorem MakesKey.prepare_refused (h : MakesKey outside alg w sealed) (hp : (outside w.moment).policy = .ok ttl)
    (hnot : ¬ Grantable (clock outside w) ttl) :
    ∃ v, (prepare alg).run outside w = (.error (.policy (ttlFault ttl) .absent), v) := by
  by_cases hrefused : ttl.toNanos = 0 ∨ Time.greatestSpan < ttl.toNanos
  · exact ⟨w.tick, by rw [prepare, run_bind, grantedTtl_refused hp hrefused]⟩
  · have hpositive : 0 < ttl.toNanos := by omega
    have hspan : ttl.toNanos ≤ Time.greatestSpan := by omega
    have hnone : (clock outside w).add? ttl = none :=
      Time.add?_eq_none_iff.mpr fun hsum => hnot ⟨hpositive, hsum⟩
    refine ⟨(atClock w).tick, ?_⟩
    rw [h.prepare_run (grantedTtl_granted hp hpositive hspan), run_bind, ttlFault_of_positive hpositive,
      makeRecord_run_of_none (w := atClock w) hnone]

/-- The record of a key that is made under a lifetime. -/
def newRecord (outside : Outside) (alg : Alg) (w : World) (sealed : EncryptedKey) (expiry : Time) : Record :=
  ⟨newKid outside alg w, alg, true, clock outside w, some expiry, sealed⟩

theorem MakesKey.prepare_granted (h : MakesKey outside alg w sealed)
    (hpoint : (outside (w.moment + 6)).isInjected .beforeStore = false)
    (hp : (outside w.moment).policy = .ok ttl) (hpositive : 0 < ttl.toNanos)
    (hspan : ttl.toNanos ≤ Time.greatestSpan) {expiry : Time} (hexpiry : (clock outside w).add? ttl = some expiry) :
    (prepare alg).run outside w = (.ok (newRecord outside alg w sealed expiry,
      Record.newestActive? alg ((outside (w.moment + 1)).arrangement.arrange w.store.records)),
      (atClock w).tick.tick) := by
  have hinjected : (outside (atClock w).tick.moment).isInjected .beforeStore = false := hpoint
  rw [h.prepare_run (grantedTtl_granted hp hpositive hspan),
    run_bind_of_ok _ (makeRecord_run_of_some (w := atClock w) hexpiry),
    run_bind_of_ok _ (by rw [failPoint_run, hinjected]; rfl)]
  rfl

theorem Unhindered.rotate_returns (h : Unhindered outside alg w sealed) (hp : (outside w.moment).policy = .ok ttl)
    (hpositive : 0 < ttl.toNanos) (hspan : ttl.toNanos ≤ Time.greatestSpan) {expiry : Time}
    (hexpiry : (clock outside w).add? ttl = some expiry) :
    (rotate alg).Returns outside w fun kid w' =>
      kid = newKid outside alg w ∧ newRecord outside alg w sealed expiry ∈ w'.store.records := by
  let listing := (outside (w.moment + 1)).arrangement.arrange w.store.records
  let new := newRecord outside alg w sealed expiry
  obtain ⟨store, hrotate, hnew, hmem⟩ := @Store.rotate_newest w.store alg listing new
    ((outside (w.moment + 1)).arrangement.perm w.store.records) h.free
  have hstored : (outside (w.moment + 7)).rotate w.store new
      ((Record.newestActive? alg listing).map Record.deactivated) = .ok store := by
    rw [Setting.rotate, h.stored, hrotate]
  -- the old record is opened in its deactivated form, and the new one for the first time
  have hopens (r : Record) (hr : r ∈ store.records) :
      ∃ key, CachedKey.ofRecord (outside (w.moment + 10)).encryptor r = .ok key := by
    rcases hmem r hr with rfl | hr | ⟨o, ho, rfl⟩
    · exact h.opens _ (.inr ⟨rfl, rfl⟩)
    · exact h.opens r (.inl hr)
    · exact Record.ofRecord_deactivated (h.opens o (.inl ho))
  refine .bind (.attempt ?_)
  rw [rotateUnreported_eq]
  refine .bind ⟨_, _, h.prepare_granted h.beforeStore hp hpositive hspan hexpiry, ?_⟩
  refine .bind (returns_rotateStore hstored (.bind (returns_failPoint h.beforeReload (.bind ?_))))
  refine (reload_returns_of_opens h.relisted hopens).mono fun _ w₁ hw₁ => returns_pure ?_
  refine .bind (returns_ask (returns_pure ⟨rfl, ?_⟩))
  exact (show w₁.store = store from hw₁.store) ▸ hnew

theorem rotation_grants_exact_lifetimes {outcome : Except KeyError String}
    (h : Unhindered outside alg w sealed) (hp : (outside w.moment).policy = .ok ttl)
    (hnow : (clock outside w).Representable) (hrun : (rotate alg).run outside w = (outcome, w')) :
    ((∃ kid, outcome = .ok kid) ↔ Grantable (clock outside w) ttl) ∧
    (∀ kid, outcome = .ok kid → w.store.contains kid = false ∧
      ∃ r ∈ w'.store.records, r.kid = kid ∧ r.createdAt = clock outside w ∧ r.LivesFor ttl) ∧
    (∀ error, outcome = .error error → error = .policy (ttlFault ttl) .absent ∧ w'.store = w.store ∧
      w'.published = w.published) := by
  by_cases hgrantable : Grantable (clock outside w) ttl
  · obtain ⟨t, hadd⟩ := hgrantable.exists_add?
    obtain ⟨kid, v, hreturns, rfl, hstored⟩ :=
      h.rotate_returns hp hgrantable.1 (hgrantable.le_greatestSpan hnow) hadd
    rw [hrun] at hreturns
    cases hreturns
    refine ⟨⟨fun _ => hgrantable, fun _ => ⟨_, rfl⟩⟩, fun kid hkid => ?_, nofun⟩
    cases hkid
    exact ⟨h.free, _, hstored, rfl, rfl, Record.livesFor_of_add? hnow rfl hadd hgrantable.1⟩
  · obtain ⟨v, hprepared⟩ := h.prepare_refused hp hgrantable
    have hintact := (@prepare_runs outside alg w).ends.1
    rw [hprepared] at hintact
    rw [rotate_of_prepare_error hprepared] at hrun
    cases hrun
    refine ⟨⟨nofun, fun hg => absurd hg hgrantable⟩, nofun, fun error herror => ?_⟩
    cases herror
    exact ⟨rfl, hintact.store, hintact.published⟩

def Sample.granting (ttl : Duration) : Setting := { Fleet.Sample.setting with policy := .fixed ttl }

theorem Sample.exists_toDer : ∃ der, Pkcs8.toDer Fleet.Sample.key = .ok der ∧
    Fleet.Sample.record.encryptedKey = ⟨[], der⟩ := by
  obtain ⟨der, hder⟩ := Pkcs8.exists_toDer Sample.regular
  exact ⟨der, hder, by simp [Fleet.Sample.record, hder, Except.toOption]⟩

theorem Sample.opens {r : Record} (halg : r.alg = .rs256)
    (hsealed : r.encryptedKey = Fleet.Sample.record.encryptedKey) : ∃ key, CachedKey.ofRecord .plain r = .ok key := by
  obtain ⟨der, hder, hfirst⟩ := Sample.exists_toDer
  exact ⟨⟨r, Fleet.Sample.key⟩, CachedKey.ofRecord_eq_ok_iff.mpr
    ⟨rfl, halg.symm, der, by rw [hsealed, hfirst]; rfl, Pkcs8.ofDer_toDer hder⟩⟩

theorem Sample.unhindered (ttl : Duration) : Unhindered (fun _ => Sample.granting ttl) .rs256
    (World.fresh Fleet.Sample.store) Fleet.Sample.record.encryptedKey := by
  obtain ⟨der, hder, hsealed⟩ := Sample.exists_toDer
  have hfree : Fleet.Sample.store.contains (KeyId.ofRandom .rs256 Fleet.Sample.setting.random) = false := by decide
  refine ⟨⟨rfl, ⟨Fleet.Sample.key, der, rfl, hder, hsealed ▸ rfl⟩, rfl⟩, rfl, rfl, hfree, rfl, rfl, ?_⟩
  rintro r (hr | ⟨halg, hsealed⟩)
  · obtain rfl : r = Fleet.Sample.record := List.mem_singleton.mp hr
    exact Sample.opens rfl rfl
  · exact Sample.opens halg hsealed

/-- The lifetime that ends with the calendar for a key that is made at the moment of the setting, and the one
that is a nanosecond longer. -/
def Sample.longest : Duration := ⟨8208566876799, 999999999, by decide, by decide⟩
def Sample.tooLong : Duration := { Duration.zero with seconds := 8208566876800, seconds_lt := by decide }

theorem longest_lifetime_is_granted :
    let run (ttl : Duration) := (rotate .rs256).run (fun _ => Sample.granting ttl) (World.fresh Fleet.Sample.store)
    (∃ r ∈ (run Sample.longest).2.store.records, r.LivesFor Sample.longest) ∧
    (run Sample.tooLong).1 = .error (.policy .ttlOutOfRange .absent) := by
  intro run
  have hnow : Fleet.Sample.setting.now.Representable := by decide
  constructor
  · obtain ⟨hiff, hstored, -⟩ := rotation_grants_exact_lifetimes (Sample.unhindered Sample.longest) rfl hnow
      (Prod.mk.eta (p := run Sample.longest)).symm
    obtain ⟨kid, hkid⟩ := hiff.mpr ⟨by decide, ⟨8210266876799, 999999999⟩, by decide, by decide⟩
    obtain ⟨-, r, hr, -, -, hlives⟩ := hstored kid hkid
    exact ⟨r, hr, hlives⟩
  · obtain ⟨hiff, -, hrefused⟩ := rotation_grants_exact_lifetimes (Sample.unhindered Sample.tooLong) rfl hnow
      (Prod.mk.eta (p := run Sample.tooLong)).symm
    cases houtcome : (run Sample.tooLong).1 with
    | error error => rw [(hrefused error houtcome).1, ttlFault_of_positive (by decide)]
    | ok kid =>
      obtain ⟨-, t, ht, hsum⟩ := hiff.mp ⟨kid, houtcome⟩
      have hend : Fleet.Sample.setting.now.toNanos + Sample.tooLong.toNanos = 8210266876800000000000 := by decide
      exact absurd (hsum.trans hend) (Int.ne_of_lt ht.bounds.2)

end Manager
end Keyring
