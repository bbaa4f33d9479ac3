import Keyring.Proofs.Fleet.Soundness
import Keyring.Proofs.Jws.Verify
import Keyring.Proofs.Manager.Vouched
import Keyring.Proofs.Snapshot.WellFormed

set_option autoImplicit false

namespace Keyring

theorem verify_ne_wrongKeyType {alg : Alg} {key : PublicKey} (h : key.alg = alg)
    (message signature : Bytes) (expected : Alg) :
    verify alg key message signature ≠ .error (.wrongKeyType expected) := by
  subst h
  cases key with
  | rsa key => simp only [verify, PublicKey.alg]; split <;> simp
  | ecdsa key =>
    simp only [verify, PublicKey.alg]
    split
    · simp
    · split <;> simp
  | ed25519 key => simp only [verify, PublicKey.alg]; split <;> simp

def JwkSet.sorted (keys : List CachedKey) : List CachedKey :=
  keys.mergeSort fun a b => !decide (b.record.Precedes a.record)

theorem JwkSet.sorted_perm (keys : List CachedKey) : (sorted keys).Perm keys := List.mergeSort_perm keys _

theorem JwkSet.ofKeys_eq (ks : List CachedKey) : ofKeys ks =
    (⟨(sorted ks).filterMap fun k => Jwk.ofPublicKey? k.kid k.alg k.publicKey⟩,
      ((sorted ks).filter fun k => (Jwk.ofPublicKey? k.kid k.alg k.publicKey).isNone).map
        fun k => .keyKindSkipped k.kid k.alg) := rfl

theorem JwkSet.ofKeys_entries {ks : List CachedKey} (h : ∀ k ∈ ks, k.publicKey.alg = k.alg) :
    (ofKeys ks).2 = [] ∧ List.Forall₂ (fun k j => Jwk.ofPublicKey? k.kid k.alg k.publicKey = some j)
      (sorted ks) (ofKeys ks).1.keys := by
  have hsome (k : CachedKey) (hk : k ∈ sorted ks) :
      ∃ j, Jwk.ofPublicKey? k.kid k.alg k.publicKey = some j :=
    let ⟨j, hj, _⟩ := Jwk.exists_ofPublicKey? (h k ((sorted_perm ks).mem_iff.mp hk))
    ⟨j, hj⟩
  rw [ofKeys_eq]
  refine ⟨?_, ?_⟩
  · rw [List.map_eq_nil_iff, List.filter_eq_nil_iff]
    intro k hk
    obtain ⟨j, hj⟩ := hsome k hk
    simp [hj]
  · generalize sorted ks = keys at hsome
    induction keys with
    | nil => exact .nil
    | cons k more ih =>
      obtain ⟨j, hj⟩ := hsome k List.mem_cons_self
      simp only [List.filterMap_cons, hj]
      exact .cons hj (ih fun k' hk' => hsome k' (List.mem_cons_of_mem k hk'))

namespace Manager

open Manager.Action Fleet

variable {outside : Outside} {w w' v : World}

theorem TakenBetween.wellFormed {store : Store} {s : Snapshot} (h : TakenBetween outside w w' store s) :
    s.WellFormed := by
  obtain ⟨moment, records, events, -, -, hperm, hs⟩ := h
  exact Snapshot.wellFormed_ofRecords hs ((hperm.map Record.kid).nodup_iff.mpr store.distinct)

theorem invariant_wellFormed (outside : Outside) :
    Invariant outside fun w => w.published.snapshot.WellFormed := by
  have hmoved {w w' : World} (hw : w.published.snapshot.WellFormed) (h : Moved outside w w') :
      w'.published.snapshot.WellFormed := by
    rcases h.published with hkept | ⟨s, hs, hp⟩
    · exact hkept.snapshot ▸ hw
    · rw [hp]
      rcases w.published.reloaded_snapshot s with heq | heq <;> rw [heq]
      · exact hs.wellFormed
      · exact hw
  exact ⟨fun hw h => hmoved hw h.moved, fun hw h => hmoved hw h.moved⟩

theorem kind_of_found {miss : Event} {kid : String} {key : CachedKey} (h : v.published.snapshot.WellFormed)
    (hkey : found? outside (fun s => s.get? kid) miss v = some key) : key.publicKey.alg = key.alg := by
  have hreload := ((invariant_wellFormed outside).keeps_reload (v.report [miss]) h).ends
  rcases Option.or_eq_some_iff.mp hkey with hfound | ⟨-, hfound⟩
  · exact (h.kind key (Snapshot.mem_of_get? hfound).1).2
  · exact (hreload.kind key (Snapshot.mem_of_get? hfound).1).2

theorem verify_runs (h : v.published.snapshot.WellFormed) (kid : String) (payload signature : Bytes)
    (expected : Alg) : (verify kid payload signature).Runs outside (fun _ => True) v fun outcome _ =>
      outcome ≠ .error (.wrongKeyType expected) := by
  refine .bind ((lookUp_runs _ _ _ _ v).mono (fun _ _ => trivial) fun outcome w₁ hlooked => ?_)
  have houtcome := hlooked.outcome
  cases hfound : found? outside (fun s => s.get? kid) (.keyMiss kid) v with
  | none =>
    rw [hfound] at houtcome
    subst houtcome
    exact nofun
  | some key =>
    rw [hfound] at houtcome
    subst houtcome
    exact ⟨trivial, verify_ne_wrongKeyType (kind_of_found h hfound) payload signature expected⟩

/-- A token is refused for the kind of its key only where its header says something else. -/
theorem verifyCompact_wrongKeyType (h : v.published.snapshot.WellFormed) {token : String} {expected : Alg}
    (hrun : ((Jws.verifyCompact token).run outside v).1 = .error (.wrongKeyType expected)) :
    ∃ p header named key, Jws.NamesKey (fun kid => found? outside (fun s => s.get? kid) (.keyMiss kid) v)
      token p header named key ∧ key.alg = expected ∧ named ≠ expected := by
  rw [(Jws.verifyCompact_runs outside v token).ends.1, Jws.verdict_eq_iff] at hrun
  cases hrun with
  | kind hkey hne => exact ⟨_, _, _, _, hkey, rfl, Ne.symm hne⟩
  | signature hkey halg _ herror =>
    refine absurd herror (verify_ne_wrongKeyType ?_ _ _ _)
    rw [kind_of_found h hkey.found, halg]

/-- Whatever the store holds and whatever is put in it, what is published is well formed at any time.
No key is ever taken for one of another kind, and all of them are among the public keys. -/
theorem published_snapshots_are_wellFormed (outside : Outside) (store : Store) (v : World)
    (hv : Reaches outside (fun _ _ => True) (World.fresh store) v) :
    v.published.snapshot.WellFormed ∧
    (∀ kid payload signature expected,
      ((verify kid payload signature).run outside v).1 ≠ .error (.wrongKeyType expected)) ∧
    (∀ token expected, ((Jws.verifyCompact token).run outside v).1 = .error (.wrongKeyType expected) →
      ∃ p header named key,
        Jws.NamesKey (fun kid => found? outside (fun s => s.get? kid) (.keyMiss kid) v) token p header named key ∧
          key.alg = expected ∧ named ≠ expected) ∧
    ∃ set, jwks.run outside v = (.ok set, v) ∧ ∃ sorted : List CachedKey,
      sorted.Perm v.published.snapshot.keys ∧
      List.Forall₂ (fun k j => Jwk.ofPublicKey? k.kid k.alg k.publicKey = some j) sorted set.keys := by
  have hwell : v.published.snapshot.WellFormed :=
    (invariant_wellFormed outside).reaches hv Snapshot.wellFormed_empty fun _ _ hv _ => hv
  refine ⟨hwell, fun kid payload signature expected => ?_, fun token expected hrun => ?_, ?_⟩
  · exact (verify_runs hwell kid payload signature expected).ends
  · exact verifyCompact_wrongKeyType hwell hrun
  · obtain ⟨hevents, hentries⟩ := JwkSet.ofKeys_entries fun k hk => (hwell.kind k hk).2
    refine ⟨_, ?_, _, JwkSet.sorted_perm _, hentries⟩
    rw [jwks_run, Snapshot.jwks, hevents]
    simp [World.report]

/-- A manager that has loaded one key, with a second active one put in its store since. -/
theorem published_snapshot_of_first_wellFormed :
    let outside : Outside := fun _ => Sample.setting
    let loaded := (Operation.reload.action.run outside (World.fresh Sample.store)).2
    let edited := { loaded with store := loaded.store.insert { Sample.record with kid := "RS256_second" } }
    let v := (Operation.reload.action.run outside edited).2
    v.published.snapshot.WellFormed ∧ v.published.snapshot.size = 2 ∧
      ∀ kid payload signature expected,
        ((verify kid payload signature).run outside v).1 ≠ .error (.wrongKeyType expected) := by
  intro outside loaded edited v
  have hreach : Reaches outside (fun _ _ => True) (World.fresh Sample.store) v :=
    .run (.edit (.run .refl .reload) _ trivial) .reload
  obtain ⟨hwell, hverify, -⟩ := published_snapshots_are_wellFormed outside Sample.store v hreach
  exact ⟨hwell, by decide +kernel, hverify⟩

end Manager
end Keyring
