import Keyring.Proofs.Manager.Remembered

set_option autoImplicit false

namespace Keyring

theorem Jwk.exists_ofPublicKey? {kid : String} {alg : Alg} {key : PublicKey} (h : key.alg = alg) :
    ∃ j, ofPublicKey? kid alg key = some j ∧ j.kid = kid ∧ j.alg = alg := by
  unfold ofPublicKey?
  rw [if_neg (not_not.mpr h)]
  cases key <;> exact ⟨_, rfl, rfl, rfl⟩

theorem JwkSet.mem_ofKeys {ks : List CachedKey} {k : CachedKey} {j : Jwk} (hk : k ∈ ks)
    (hj : Jwk.ofPublicKey? k.kid k.alg k.publicKey = some j) : j ∈ (ofKeys ks).1.keys :=
  List.mem_filterMap.mpr ⟨k, List.mem_mergeSort.mpr hk, hj⟩

theorem Snapshot.Holds.answers {key : CachedKey} {s : Snapshot} {store : Store} (h : s.Holds key store) :
    ∃ k, s.get? key.kid = some k ∧ k.kid = key.kid ∧ k.alg = key.alg ∧ k.publicKey = key.publicKey := by
  obtain ⟨k, hget, hbecame, hprivate⟩ := h.found
  refine ⟨k, hget, hbecame.kid_eq, hbecame.alg_eq, ?_⟩
  rw [CachedKey.publicKey, hprivate, CachedKey.publicKey]

namespace Manager

open Manager.Action

variable {outside : Outside} {e : Encryptor} {w w' v : World}

theorem LookedUp.find?_eq {find? : Snapshot → Option CachedKey} {miss : Event} {missing : KeyError}
    {key : CachedKey} (h : LookedUp outside find? miss missing w (.ok key) w') :
    find? w'.published.snapshot = some key := by
  have hfound : found? outside find? miss w = some key := by
    have ho := h.outcome
    cases hf : found? outside find? miss w with
    | none =>
      rw [hf] at ho
      cases ho
    | some k =>
      rw [hf] at ho
      cases ho
      rfl
  -- a hit leaves what is published, and after a miss the answer is that of the snapshot then in use
  unfold found? at hfound
  cases hw : find? w.published.snapshot with
  | some k =>
    rw [hw, Option.some_or] at hfound
    rw [(h.hit (by simp [hw])).published, hw, hfound]
  | none =>
    rw [hw, Option.none_or] at hfound
    rw [(h.miss hw).published, hfound]

/-- How something comes to be signed: by the active key, with the payload that is built for it. -/
structure SignedBy (key : CachedKey) (alg : Alg) (build : String → Except Source Bytes) (signed : Signed)
    (w' : World) : Prop where
  active : w'.published.snapshot.active? alg = some key
  kid : signed.kid = key.kid
  payload : build key.kid = .ok signed.payload
  signature : key.privateKey.sign signed.payload = .ok signed.signature

theorem sign_runs (alg : Alg) (build : String → Except Source Bytes) (w : World) :
    (sign alg build).Runs outside (fun _ => True) w fun outcome w' =>
      ∀ signed, outcome = .ok signed → ∃ key, SignedBy key alg build signed w' := by
  rw [sign_eq]
  refine .bind ((lookUp_runs _ _ _ _ w).mono (fun _ _ => trivial) fun outcome w₁ h => ?_)
  cases outcome with
  | error error => exact nofun
  | ok key =>
    refine runs_done trivial fun signed hsigned => ?_
    obtain ⟨hkid, hbuild, hsign⟩ := signBuilt_eq_ok_iff.mp hsigned
    exact ⟨key, h.find?_eq, hkid, hbuild, hsign⟩

section held

variable {key k : CachedKey}

theorem keyById_run {kid : String} (h : v.published.snapshot.get? kid = some k) (outside : Outside) :
    (keyById kid).run outside v = (.ok k, v.report [.keyHit kid]) :=
  lookUp_run_of_hit h outside _ _ _

theorem verify_run {kid : String} (h : v.published.snapshot.get? kid = some k) (outside : Outside)
    (payload signature : Bytes) : (verify kid payload signature).run outside v =
      (Keyring.verify k.alg k.publicKey payload signature, v.report [.keyHit kid]) := by
  unfold verify
  rw [run_bind, keyById_run h]
  rfl

theorem jwks_run (outside : Outside) (v : World) :
    jwks.run outside v = (.ok v.published.snapshot.jwks.1, v.report v.published.snapshot.jwks.2) := rfl

/-- The signature of a payload is accepted and the key is listed, whatever the answers from outside are,
and the store is not asked for anything. -/
structure VouchedFor (v : World) (key : CachedKey) (payload signature : Bytes) : Prop where
  accepted : ∀ outside,
    (verify key.kid payload signature).run outside v = (.ok (), v.report [.keyHit key.kid])
  listed : ∀ outside, ∃ set events, jwks.run outside v = (.ok set, v.report events) ∧
    ∃ j ∈ set.keys, j.kid = key.kid ∧ Jwk.ofPublicKey? key.kid key.alg key.publicKey = some j

theorem SignedBy.verify_eq {alg : Alg} {build : String → Except Source Bytes} {signed : Signed}
    (h : SignedBy key alg build signed w') (hkey : CachedKey.ofRecord e key.record = .ok key)
    (ha : key.privateKey.AcceptsOwn signed.payload) :
    Keyring.verify key.alg key.publicKey signed.payload signed.signature = .ok () := by
  have halg : key.privateKey.alg = key.alg := (CachedKey.ofRecord_eq_ok_iff.mp hkey).2.1
  rw [← halg]
  exact PrivateKey.verify_sign ha h.signature

theorem vouchedFor_of_holds {payload signature : Bytes}
    (h : v.published.snapshot.Holds key v.store) (hkey : CachedKey.ofRecord e key.record = .ok key)
    (hs : Keyring.verify key.alg key.publicKey payload signature = .ok ()) :
    VouchedFor v key payload signature := by
  obtain ⟨k, hget, hkid, halg, hpublic⟩ := h.answers
  refine ⟨fun outside => ?_, fun outside => ⟨_, _, jwks_run outside v, ?_⟩⟩
  · rw [verify_run hget, halg, hpublic, hs]
  · have hkind : key.publicKey.alg = key.alg := by
      rw [CachedKey.publicKey, PrivateKey.alg_publicKey]
      exact (CachedKey.ofRecord_eq_ok_iff.mp hkey).2.1
    obtain ⟨j, hj, hjkid, -⟩ := @Jwk.exists_ofPublicKey? key.kid key.alg key.publicKey hkind
    refine ⟨j, JwkSet.mem_ofKeys (Snapshot.mem_of_get? hget).1 ?_, hjkid, hj⟩
    rw [hkid, halg, hpublic]
    exact hj

end held

end Manager
end Keyring
