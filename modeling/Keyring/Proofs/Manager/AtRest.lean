import Keyring.Proofs.Manager.FailedRotation
import Keyring.Proofs.Pkcs8.RoundTrip
import Keyring.Proofs.Record.RoundTrip

set_option autoImplicit false

namespace Keyring

/-- The record gives the key back, from the store as well as from its text. -/
structure Record.Preserves (e : Encryptor) (key : PrivateKey) (r : Record) : Prop where
  text : Record.ofJson r.toJson.toString = .ok r
  handle : ∃ handle, CachedKey.ofRecord e r = .ok handle ∧ handle.record = r ∧ handle.alg = key.alg ∧
    handle.publicKey = key.publicKey ∧ ∀ message, handle.privateKey.sign message = key.sign message

theorem Record.preserves_of_sealed {master : MasterKey} {key : PrivateKey} {nonce der : Bytes} {r : Record}
    (hn : nonce.length = Encryptor.nonceLength) (hder : Pkcs8.toDer key = .ok der)
    (he : (Encryptor.aesGcm master).encrypt nonce der = .ok r.encryptedKey) (ha : r.alg = key.alg)
    (hr : r.IsDated) : r.Preserves (.aesGcm master) key := by
  have hdecrypt : (Encryptor.aesGcm master).decrypt r.encryptedKey = .ok der := by
    rw [← Except.ok.inj he]
    exact Encryptor.aesGcm_decrypt_close master nonce der hn
  have hopen : CachedKey.ofRecord (.aesGcm master) r = .ok ⟨r, key⟩ :=
    CachedKey.ofRecord_eq_ok_iff.mpr ⟨rfl, ha.symm, der, hdecrypt, Pkcs8.ofDer_toDer hder⟩
  exact ⟨Record.ofJson_toString hr, ⟨r, key⟩, hopen, rfl, ha, rfl, fun _ => rfl⟩

theorem Time.IsCivil.add? {t u : Time} {d : Duration} (h : t.add? d = some u) : u.IsCivil := by
  unfold Time.add? at h
  simp only at h
  split at h
  · rename_i hcovers
    cases h
    exact ⟨hcovers, .inl (Nat.mod_lt _ (by decide))⟩
  · cases h

theorem Store.Handover.eq_new {s s' : Store} {alg : Alg} {new a : Record} {old : Option Record}
    (h : s.Handover alg new old s') (ha : a ∈ s'.records) (hfree : s.contains a.kid = false) : a = new := by
  rcases (h.mem_iff a).mp ha with rfl | ⟨o, ho, rfl⟩ | ⟨ha, -⟩
  · rfl
  · have hstored := Store.contains_of_mem (h.old_active o ho).1
    rw [Record.deactivated_kid] at hfree
    rw [hfree] at hstored
    cases hstored
  · rw [Store.contains_of_mem ha] at hfree
    cases hfree

namespace Manager

open Manager.Action

variable {outside : Outside} {alg : Alg} {w : World}

theorem Action.run_bind_eq_ok {α β : Type} {a : Action α} {f : α → Action β} {y : β} {w' : World}
    (h : (a >>= f).run outside w = (.ok y, w')) :
    ∃ x w₁, a.run outside w = (.ok x, w₁) ∧ (f x).run outside w₁ = (.ok y, w') := by
  rw [run_bind] at h
  cases ha : a.run outside w with
  | mk outcome w₁ =>
    rw [ha] at h
    cases outcome with
    | error error => cases h
    | ok x => exact ⟨x, w₁, rfl, h⟩

theorem Action.run_bind_of_ok {α β : Type} {a : Action α} (f : α → Action β) {x : α} {w' : World}
    (h : a.run outside w = (.ok x, w')) : (a >>= f).run outside w = (f x).run outside w' := by
  rw [run_bind, h]

theorem Action.run_bind_of_error {α β : Type} {a : Action α} (f : α → Action β) {error : KeyError} {w' : World}
    (h : a.run outside w = (.error error, w')) : (a >>= f).run outside w = (.error error, w') := by
  rw [run_bind, h]

structure Made (outside : Outside) (alg : Alg) (key : PrivateKey) (r : Record) : Prop where
  generated : ∃ moment, (outside moment).generate alg = .ok key
  encrypted : ∃ moment der, Pkcs8.toDer key = .ok der ∧
    (outside moment).encryptor.encrypt (outside moment).nonce der = .ok r.encryptedKey
  alg_eq : r.alg = alg
  kid : ∃ moment, r.kid = KeyId.ofRandom alg (outside moment).random
  created : ∃ moment, r.createdAt = (outside moment).now
  expires : ∃ ttl, r.expiresAt = r.createdAt.add? ttl ∧ r.expiresAt.isSome

theorem run_observe (w : World) : observe.run outside w = (.ok (outside w.moment), w.tick) := rfl

theorem run_ofExcept {α : Type} (x : Except KeyError α) (w : World) : (ofExcept x).run outside w = (x, w) := rfl

theorem makeKey_outcome (alg : Alg) (w : World) : ((makeKey alg).run outside w).1 =
    ((outside w.moment).generate alg).bind fun key => (Pkcs8.toDer key).bind fun der =>
      if (outside (w.moment + 1)).isInjected .beforeEncrypt then .error (.encryption "injected failure before encrypt")
      else (outside (w.moment + 2)).encryptor.encrypt (outside (w.moment + 2)).nonce der := by
  simp only [makeKey, run_bind, run_observe, run_ofExcept, failPoint_run]
  cases (outside w.moment).generate alg with
  | error error => rfl
  | ok key =>
    cases hder : Pkcs8.toDer key with
    | error error => simp [Except.bind, hder]
    | ok der =>
      have hmoments : w.tick.moment = w.moment + 1 ∧ w.tick.tick.moment = w.moment + 2 := ⟨rfl, rfl⟩
      simp only [Except.bind, hder, hmoments]
      cases (outside (w.moment + 1)).isInjected .beforeEncrypt <;> rfl

theorem makeRecord_outcome (alg : Alg) (ttl : Duration) (key : EncryptedKey) (w : World) :
    ((makeRecord alg ttl key).run outside w).1 = match (outside w.moment).now.add? ttl with
      | none => .error (.policy .ttlOutOfRange .absent)
      | some expiry => .ok ⟨KeyId.ofRandom alg (outside w.moment).random, alg, true, (outside w.moment).now,
          some expiry, key⟩ := by
  simp only [makeRecord, run_bind, run_observe]
  cases (outside w.moment).now.add? ttl <;> rfl

theorem makeKey_made {sealed : EncryptedKey} {w' : World} (h : (makeKey alg).run outside w = (.ok sealed, w')) :
    ∃ key, (∃ moment, (outside moment).generate alg = .ok key) ∧ ∃ moment der, Pkcs8.toDer key = .ok der ∧
      (outside moment).encryptor.encrypt (outside moment).nonce der = .ok sealed := by
  have hmade := @makeKey_outcome outside alg w
  rw [h] at hmade
  cases hkey : (outside w.moment).generate alg with
  | error error => simp [hkey, Except.bind] at hmade
  | ok key =>
    cases hder : Pkcs8.toDer key with
    | error error => simp [hkey, hder, Except.bind] at hmade
    | ok der =>
      simp only [hkey, hder, Except.bind] at hmade
      split at hmade
      · cases hmade
      · exact ⟨key, ⟨_, hkey⟩, _, der, hder, hmade.symm⟩

theorem prepare_made {new : Record} {old : Option Record} {w' : World}
    (h : (prepare alg).run outside w = (.ok (new, old), w')) : ∃ key, Made outside alg key new := by
  obtain ⟨ttl, w₁, -, h⟩ := run_bind_eq_ok h
  obtain ⟨records, w₂, -, h⟩ := run_bind_eq_ok h
  obtain ⟨sealed, w₃, hsealed, h⟩ := run_bind_eq_ok h
  obtain ⟨record, w₄, hrecord, h⟩ := run_bind_eq_ok h
  obtain ⟨-, w₅, -, h⟩ := run_bind_eq_ok h
  obtain ⟨key, hgenerated, moment, der, hder, hencrypted⟩ := makeKey_made hsealed
  have houtcome := @makeRecord_outcome outside alg ttl sealed w₃
  rw [hrecord] at houtcome
  cases h
  cases hexpiry : (outside w₃.moment).now.add? ttl with
  | none =>
    rw [hexpiry] at houtcome
    cases houtcome
  | some expiry =>
    rw [hexpiry] at houtcome
    cases houtcome
    exact ⟨key, hgenerated, ⟨moment, der, hder, hencrypted⟩, rfl, ⟨_, rfl⟩, ⟨_, rfl⟩, ttl, hexpiry.symm, rfl⟩

/-- The records of a store that are not in another one are made. -/
def AllMade (outside : Outside) (alg : Alg) (s s' : Store) : Prop :=
  ∀ r ∈ s'.records, s.contains r.kid = false → ∃ key, Made outside alg key r

theorem allMade_of_eq {s s' : Store} (h : s' = s) : AllMade outside alg s s' := by
  subst h
  intro r hr hfree
  rw [Store.contains_of_mem hr] at hfree
  cases hfree

theorem rotateUnreported_makes (alg : Alg) (w : World) :
    (rotateUnreported alg).Runs outside (fun v => AllMade outside alg w.store v.store) w
      fun _ v => AllMade outside alg w.store v.store := by
  rw [rotateUnreported_eq]
  refine .bind (.of_run ((prepare_runs alg w).mono (fun v hv => allMade_of_eq hv.store) ?_))
  rintro outcome w₁ ⟨hw₁, hnew⟩ hrun
  rcases outcome with error | ⟨new, old⟩
  · exact allMade_of_eq hw₁.store
  obtain ⟨halg, hactive, records, hperm, rfl⟩ := hnew new old rfl
  obtain ⟨key, hmade⟩ := prepare_made hrun.symm
  refine .bind (runs_rotateStore (allMade_of_eq hw₁.store) (fun error _ => ?_) fun store hr => ?_)
  · exact ⟨allMade_of_eq hw₁.store, allMade_of_eq hw₁.store⟩
  have hadded : AllMade outside alg w.store store := by
    have hhandover := Store.handover_of_rotate hperm halg hactive (hw₁.store ▸ Setting.rotate_eq_ok hr)
    intro r hr hfree
    exact hhandover.eq_new hr hfree ▸ ⟨key, hmade⟩
  refine ⟨hadded, (publish_runs new.kid _).mono ?_ ?_⟩
  · rintro v ⟨outcome, hv⟩
    rwa [hv.store]
  · rintro outcome v ⟨reloaded, -, hv⟩
    rwa [hv.store]

/-- Whatever record a rotation adds to the store, it has made. -/
theorem rotate_makes (alg : Alg) (w : World) :
    (rotate alg).Runs outside (fun v => AllMade outside alg w.store v.store) w
      fun _ v => AllMade outside alg w.store v.store := by
  refine .bind (.attempt ((rotateUnreported_makes alg w).mono (fun _ h => h) fun outcome w₁ hw₁ => ?_))
  have hend {v : World} (hv : w₁.Untouched v) : AllMade outside alg w.store v.store := hv.store ▸ hw₁
  cases outcome with
  | error error => exact .bind (runs_report (fun v hv => hend hv) ⟨hend (.report _ _), hend (.report _ _)⟩)
  | ok kid => exact .bind (runs_report (fun v hv => hend hv) ⟨hend (.report _ _), hend (.report _ _)⟩)

/-- An outside that encrypts under a master key with nonces of the proper length, and generates keys of the
algorithm that is asked for, at moments of the calendar. -/
structure Sealing (master : MasterKey) (outside : Outside) : Prop where
  encryptor : ∀ moment, (outside moment).encryptor = .aesGcm master
  nonce : ∀ moment, (outside moment).nonce.length = Encryptor.nonceLength
  generate : ∀ moment alg key, (outside moment).generate alg = .ok key → key.alg = alg ∧ key.Regular
  now : ∀ moment, (outside moment).now.IsCivil

theorem Made.preserves {master : MasterKey} {key : PrivateKey} {r : Record} (h : Made outside alg key r)
    (ho : Sealing master outside) : r.Preserves (.aesGcm master) key := by
  obtain ⟨moment, hkey⟩ := h.generated
  obtain ⟨moment', der, hder, hencrypted⟩ := h.encrypted
  obtain ⟨moment'', hcreated⟩ := h.created
  obtain ⟨ttl, hexpires, -⟩ := h.expires
  rw [ho.encryptor moment'] at hencrypted
  have halg : r.alg = key.alg := h.alg_eq.trans (ho.generate moment alg key hkey).1.symm
  refine Record.preserves_of_sealed (ho.nonce moment') hder hencrypted halg ⟨hcreated ▸ ho.now moment'', ?_⟩
  exact fun t ht => .add? (hexpires.symm.trans ht)

/-- A key comes back whole from the record that it is stored in: every key that can be encrypted and dated,
and so every key that a rotation adds to the store, wherever the rotation stops. -/
theorem keys_survive_at_rest (master : MasterKey) :
    (∀ key nonce, key.Regular → nonce.length = Encryptor.nonceLength →
      ∃ der sealed, Pkcs8.toDer key = .ok der ∧ (Encryptor.aesGcm master).encrypt nonce der = .ok sealed ∧
        ∀ r : Record, r.alg = key.alg → r.encryptedKey = sealed → r.IsDated → r.Preserves (.aesGcm master) key) ∧
    ∀ outside, Sealing master outside → ∀ alg w v, (rotate alg).Passes outside w v →
      ∀ r ∈ v.store.records, w.store.contains r.kid = false →
        ∃ moment key, (outside moment).generate alg = .ok key ∧ r.alg = alg ∧ r.Preserves (.aesGcm master) key := by
  refine ⟨fun key nonce hkey hnonce => ?_, fun outside ho alg w v hv r hr hfree => ?_⟩
  · obtain ⟨der, hder⟩ := Pkcs8.exists_toDer hkey
    refine ⟨der, _, hder, rfl, fun r halg hsealed hdated => ?_⟩
    exact Record.preserves_of_sealed hnonce hder (congrArg Except.ok hsealed.symm) halg hdated
  · obtain ⟨key, hmade⟩ := (rotate_makes alg w).passes hv r hr hfree
    obtain ⟨moment, hkey⟩ := hmade.generated
    exact ⟨moment, key, hkey, hmade.alg_eq, hmade.preserves ho⟩

def Sample.sealing : Setting := { Fleet.Sample.setting with
  encryptor := .aesGcm ⟨List.replicate 32 7, rfl⟩
  nonce := List.replicate 12 2
  generate := fun alg => if alg = .rs256 then .ok Fleet.Sample.key else .error (.noActiveKey alg)
  isInjected := fun point => point = .beforeReload }

theorem Sample.of_generate {alg : Alg} {key : PrivateKey} (h : Sample.sealing.generate alg = .ok key) :
    alg = .rs256 ∧ Fleet.Sample.key = key := by
  by_cases halg : alg = .rs256
  · subst halg
    exact ⟨rfl, Except.ok.inj h⟩
  · simp [Sample.sealing, halg] at h

theorem Sample.regular : Fleet.Sample.key.Regular := by
  intro k hk
  cases hk
  exact ⟨by decide, by decide, by decide⟩

theorem Sample.sealing_sealing : Sealing ⟨List.replicate 32 7, rfl⟩ fun _ => Sample.sealing where
  encryptor := fun _ => rfl
  nonce := fun _ => rfl
  generate := by
    intro moment alg key h
    obtain ⟨rfl, rfl⟩ := Sample.of_generate h
    exact ⟨rfl, Sample.regular⟩
  now := fun _ => ⟨by decide, .inl (by decide)⟩

/-- An Ed25519 key by itself, and the key of a first rotation. -/
theorem first_keys_survive_at_rest :
    let master : MasterKey := ⟨List.replicate 32 7, rfl⟩
    let seed : PrivateKey := .ed25519 ⟨List.replicate 32 1, rfl⟩
    (∃ der sealed, Pkcs8.toDer seed = .ok der ∧
      (Encryptor.aesGcm master).encrypt (List.replicate 12 2) der = .ok sealed ∧
      Record.Preserves (.aesGcm master) seed ⟨"EdDSA_first", .edDsa, true, ⟨1600000000, 0⟩, none, sealed⟩) ∧
    ∃ r ∈ ((rotate .rs256).run (fun _ => Sample.sealing) (World.fresh .empty)).2.store.records,
      r.Preserves (.aesGcm master) Fleet.Sample.key := by
  intro master seed
  have hcivil : Time.IsCivil ⟨1600000000, 0⟩ := ⟨by decide, .inl (by decide)⟩
  have hstored : ((rotate .rs256).run (fun _ => Sample.sealing) (World.fresh .empty)).2.store.records ≠ [] := by
    decide +kernel
  refine ⟨?_, ?_⟩
  · obtain ⟨der, sealed, hder, hsealed, hr⟩ := (keys_survive_at_rest master).1 seed (List.replicate 12 2) nofun rfl
    exact ⟨der, sealed, hder, hsealed, hr _ rfl rfl ⟨hcivil, nofun⟩⟩
  · obtain ⟨r, hr⟩ := List.exists_mem_of_ne_nil _ hstored
    obtain ⟨moment, key, hkey, -, hpreserves⟩ := (keys_survive_at_rest master).2 (fun _ => Sample.sealing)
      Sample.sealing_sealing .rs256 (World.fresh .empty) _ (passes_end _ _) r hr rfl
    obtain ⟨-, rfl⟩ := Sample.of_generate hkey
    exact ⟨r, hr, hpreserves⟩

end Manager
end Keyring
