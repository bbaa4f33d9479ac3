import Keyring.Proofs.Jwk.Members
import Keyring.Proofs.Manager.WellFormed

set_option autoImplicit false

namespace Keyring

theorem Snapshot.keys_nodup {e : Encryptor} {rs : List Record} {s : Snapshot}
    (h : (ofRecords e rs).1 = .ok s) : (s.keys.map CachedKey.kid).Nodup := by
  obtain ⟨ks, -, rfl⟩ := (extend_eq_ok_iff e empty s rs).mp h
  exact addAll_nodup ks List.nodup_nil

theorem Snapshot.mem_keys_iff {s : Snapshot} (h : (s.keys.map CachedKey.kid).Nodup) {k : CachedKey} :
    k ∈ s.keys ↔ s.get? k.kid = some k :=
  ⟨get?_of_mem h, fun hk => (mem_of_get? hk).1⟩

theorem Snapshot.Agrees.keys_perm {s s' : Snapshot} (h : s.Agrees s') (hs : (s.keys.map CachedKey.kid).Nodup)
    (hs' : (s'.keys.map CachedKey.kid).Nodup) : s'.keys.Perm s.keys := by
  rw [List.perm_ext_iff_of_nodup hs'.of_map hs.of_map]
  intro k
  rw [mem_keys_iff hs, mem_keys_iff hs', h.get]

namespace JwkSet

theorem sorted_precedes {keys : List CachedKey} (h : (keys.map CachedKey.kid).Nodup) :
    (sorted keys).Pairwise fun a b => a.record.Precedes b.record := by
  have hle : (sorted keys).Pairwise fun a b => (!decide (b.record.Precedes a.record)) = true := by
    refine List.pairwise_mergeSort (fun a b c hab hbc => ?_) (fun a b => ?_) keys
    · simp only [Bool.not_eq_true', decide_eq_false_iff_not] at *
      intro hca
      rcases hca.before_or_after b.record with h | h
      · exact hbc h
      · exact hab h
    · simp only [Bool.or_eq_true, Bool.not_eq_true', decide_eq_false_iff_not]
      by_cases hba : b.record.Precedes a.record
      · exact .inr fun hab => Record.not_precedes_self _ (hab.trans hba)
      · exact .inl hba
  have hkids : (sorted keys).Pairwise fun a b => a.kid ≠ b.kid :=
    List.pairwise_map.mp (((sorted_perm keys).map _).nodup_iff.mpr h)
  refine (hle.and hkids).imp fun {a b} hab => ?_
  obtain ⟨hle, hne⟩ := hab
  simp only [Bool.not_eq_true', decide_eq_false_iff_not] at hle
  by_contra hlt
  exact hne (Record.kid_eq_of_not_precedes hlt hle)

theorem sorted_eq_of_perm {keys keys' : List CachedKey} (hp : keys'.Perm keys)
    (h : (keys.map CachedKey.kid).Nodup) : sorted keys' = sorted keys := by
  have h' : (keys'.map CachedKey.kid).Nodup := (hp.map _).nodup_iff.mpr h
  refine List.Perm.eq_of_pairwise ?_ (sorted_precedes h') (sorted_precedes h)
    ((sorted_perm keys').trans (hp.trans (sorted_perm keys).symm))
  exact fun a b _ _ hab hba => absurd (hab.trans hba) (Record.not_precedes_self _)

theorem ofKeys_eq_of_perm {keys keys' : List CachedKey} (hp : keys'.Perm keys)
    (h : (keys.map CachedKey.kid).Nodup) : (ofKeys keys').1 = (ofKeys keys).1 := by
  rw [ofKeys_eq, ofKeys_eq, sorted_eq_of_perm hp h]

/-- An entry for each key, in this order. -/
def Lists (keys : List CachedKey) (s : JwkSet) : Prop :=
  List.Forall₂ (fun k j => Jwk.Describes k.kid k.alg k.publicKey j) keys s.keys

theorem Lists.indexOf? {keys : List CachedKey} {s : JwkSet} (h : s.Lists keys)
    (hd : (keys.map CachedKey.kid).Nodup) {k : CachedKey} (hk : k ∈ keys) :
    ∃ i j, s.indexOf? k.kid = some i ∧ s.keys[i]? = some j ∧ Jwk.Describes k.kid k.alg k.publicKey j := by
  obtain ⟨entries⟩ := s
  simp only [Lists, JwkSet.indexOf?] at h ⊢
  induction h with
  | nil => cases hk
  | @cons a j keys entries hj _ ih =>
    rw [List.map_cons, List.nodup_cons] at hd
    rcases List.mem_cons.mp hk with rfl | hk
    · exact ⟨0, j, by simp [List.findIdx?_cons, hj.kid_eq], rfl, hj⟩
    · have hne : a.kid ≠ k.kid := fun heq => hd.1 (heq ▸ List.mem_map_of_mem hk)
      obtain ⟨i, j', hi, hj', hdescribes⟩ := ih hd.2 hk
      exact ⟨i + 1, j', by simp [List.findIdx?_cons, hj.kid_eq, hne, hi], hj', hdescribes⟩

theorem Lists.indexOf?_eq_none {keys : List CachedKey} {s : JwkSet} (h : s.Lists keys) {kid : String}
    (hk : ∀ k ∈ keys, k.kid ≠ kid) : s.indexOf? kid = none := by
  obtain ⟨entries⟩ := s
  simp only [Lists, JwkSet.indexOf?] at h ⊢
  induction h with
  | nil => rfl
  | @cons a j keys entries hj _ ih =>
    have hne := hk a List.mem_cons_self
    simp [List.findIdx?_cons, hj.kid_eq, hne, ih fun k hmem => hk k (List.mem_cons_of_mem a hmem)]

end JwkSet

theorem Snapshot.jwks_lists_of_kind {s : Snapshot} (h : ∀ k ∈ s.keys, k.publicKey.alg = k.alg) :
    s.jwks.1.Lists (JwkSet.sorted s.keys) :=
  (JwkSet.ofKeys_entries h).2.imp fun _ _ => Jwk.describes_of_ofPublicKey?

theorem Snapshot.jwks_lists {s : Snapshot} (h : s.WellFormed) : s.jwks.1.Lists (JwkSet.sorted s.keys) :=
  jwks_lists_of_kind fun k hk => (h.kind k hk).2

theorem Snapshot.keys_perm {e : Encryptor} {rs : List Record} {s : Snapshot} (h : (ofRecords e rs).1 = .ok s)
    (hd : (rs.map Record.kid).Nodup) : (s.keys.map CachedKey.record).Perm rs := by
  have hkeys := keys_nodup h
  obtain ⟨ks, hks, rfl⟩ := (extend_eq_ok_iff e empty s rs).mp h
  have hnodup := nodup_of_opened hks hd
  have hperm : (empty.addAll ks).keys.Perm ks := by
    rw [List.perm_ext_iff_of_nodup hkeys.of_map hnodup.of_map]
    intro k
    rw [mem_keys_iff hkeys, get?_addAll_eq_some_iff hnodup]
    exact and_iff_left rfl
  exact (hperm.map _).trans (.of_eq (records_of_opened hks))

namespace Manager

/-- The set of the public keys of a snapshot. Its text does not depend on the order in which the store lists
its records or on that of the keys in the snapshot, and reads back as the set. There is one entry for each
record, in the order of creation, which is found under its id and gives the public key back. -/
theorem key_sets_are_lossless_and_canonical {e : Encryptor} {records : List Record} {s : Snapshot}
    {events : List Event} (h : Snapshot.ofRecords e records = (.ok s, events))
    (hd : (records.map Record.kid).Nodup) :
    (∀ records', records'.Perm records → ∃ s', (Snapshot.ofRecords e records').1 = .ok s' ∧
      ∀ outside w, w.published.snapshot.keys.Perm s'.keys →
        (jwks.run outside w).1 = .ok s.jwks.1 ∧ (jwksText.run outside w).1 = .ok s.jwks.1.text) ∧
    JwkSet.ofJson s.jwks.1.text = .ok s.jwks.1 ∧
    (∃ keys : List CachedKey, keys.Perm s.keys ∧ (keys.map CachedKey.record).Perm records ∧
      keys.Pairwise (fun a b => a.record.Precedes b.record) ∧ s.jwks.1.Lists keys) ∧
    (∀ k ∈ s.keys, ∃ i j, s.jwks.1.indexOf? k.kid = some i ∧ s.jwks.1.keys[i]? = some j ∧
      Jwk.Describes k.kid k.alg k.publicKey j) ∧
    (∀ kid, s.get? kid = none → s.jwks.1.indexOf? kid = none) ∧
    ∀ (a b : CachedKey) i j, Jwk.ofPublicKey? a.kid a.alg a.publicKey = some i →
      Jwk.ofPublicKey? b.kid b.alg b.publicKey = some j → a.publicKey.alg = b.publicKey.alg →
        i.n = j.n → i.e = j.e → i.x = j.x → i.y = j.y → a.publicKey = b.publicKey := by
  have hok := congrArg Prod.fst h
  have hwell := Snapshot.wellFormed_ofRecords h hd
  have hnodup := Snapshot.keys_nodup hok
  have hlists := Snapshot.jwks_lists hwell
  have hperm := JwkSet.sorted_perm s.keys
  have hnodup' : ((JwkSet.sorted s.keys).map CachedKey.kid).Nodup := (hperm.map _).nodup_iff.mpr hnodup
  refine ⟨fun records' hrecords => ?_, JwkSet.ofJson_text _, ?_, fun k hk => ?_, fun kid hkid => ?_, ?_⟩
  · obtain ⟨s', hs', hagrees⟩ := Snapshot.ofRecords_perm hok hrecords hd
    refine ⟨s', hs', fun outside w hw => ?_⟩
    have hkeys := hw.trans (hagrees.keys_perm hnodup (Snapshot.keys_nodup hs'))
    have hset : w.published.snapshot.jwks.1 = s.jwks.1 := JwkSet.ofKeys_eq_of_perm hkeys hnodup
    rw [← hset]
    exact ⟨rfl, rfl⟩
  · exact ⟨_, hperm, (hperm.map _).trans (Snapshot.keys_perm hok hd), JwkSet.sorted_precedes hnodup, hlists⟩
  · exact hlists.indexOf? hnodup' (hperm.mem_iff.mpr hk)
  · refine hlists.indexOf?_eq_none fun k hk heq => ?_
    have hfound := Snapshot.get?_of_mem hnodup (hperm.mem_iff.mp hk)
    rw [heq, hkid] at hfound
    cases hfound
  · intro a b i j hi hj
    exact (Jwk.describes_of_ofPublicKey? hi).key_eq (Jwk.describes_of_ofPublicKey? hj)

/-- A snapshot of two keys that were made at the same time. -/
theorem key_set_of_two_is_lossless :
    let records := [Fleet.Sample.record, { Fleet.Sample.record with kid := "RS256_second", isActive := false }]
    ∃ s events, Snapshot.ofRecords .plain records = (.ok s, events) ∧ JwkSet.ofJson s.jwks.1.text = .ok s.jwks.1 ∧
      ∃ keys : List CachedKey, keys.Perm s.keys ∧ (keys.map CachedKey.record).Perm records ∧
        keys.Pairwise (fun a b => a.record.Precedes b.record) ∧ s.jwks.1.Lists keys := by
  intro records
  have hopened : (Snapshot.ofRecords .plain records).1.toOption.isSome := by decide +kernel
  cases h : Snapshot.ofRecords .plain records with
  | mk outcome events =>
    rw [h] at hopened
    cases outcome with
    | error error => cases hopened
    | ok s =>
      obtain ⟨-, htext, hkeys, -⟩ := key_sets_are_lossless_and_canonical h (by decide)
      exact ⟨s, events, rfl, htext, hkeys⟩

end Manager
end Keyring
