import Keyring.Snapshot
import Keyring.Proofs.Store.Evolution
import Mathlib.Data.List.Forall2

set_option autoImplicit false

namespace Keyring

namespace CachedKey

theorem ofRecord_eq_ok_iff {e : Encryptor} {r : Record} {k : CachedKey} :
    ofRecord e r = .ok k ↔ k.record = r ∧ k.privateKey.alg = r.alg ∧
      ∃ der, e.decrypt r.encryptedKey = .ok der ∧ Pkcs8.ofDer der = .ok k.privateKey := by
  unfold ofRecord
  cases hder : e.decrypt r.encryptedKey with
  | error error => simp
  | ok der =>
    cases hkey : Pkcs8.ofDer der with
    | error error => simp [hkey]
    | ok key =>
      obtain ⟨record, privateKey⟩ := k
      by_cases halg : key.alg = r.alg
      · simp only [hkey, halg, if_true, Except.ok.injEq, mk.injEq, exists_eq_left']
        exact ⟨fun ⟨hr, hk⟩ => ⟨hr.symm, hk ▸ halg, hk⟩, fun ⟨hr, _, hk⟩ => ⟨hr.symm, hk⟩⟩
      · simp only [hkey, halg, if_false, reduceCtorEq, Except.ok.injEq, exists_eq_left', false_iff]
        rintro ⟨-, hother, rfl⟩
        exact halg hother

theorem record_of_ofRecord {e : Encryptor} {r : Record} {k : CachedKey} (h : ofRecord e r = .ok k) :
    k.record = r := (ofRecord_eq_ok_iff.mp h).1

end CachedKey

namespace Snapshot

theorem elect_alg {k : CachedKey} {o : Option CachedKey}
    (h : ∀ other, o = some other → other.alg = k.alg) :
    (elect k o).1.alg = k.alg := by
  cases o with
  | none => rfl
  | some other =>
    simp only [elect]
    split
    · rfl
    · exact h other rfl

theorem alg_of_active? {s : Snapshot} {alg : Alg} {k : CachedKey} (h : s.active? alg = some k) :
    k.alg = alg := by
  simpa using List.find?_some h

theorem mem_of_get? {s : Snapshot} {kid : String} {k : CachedKey} (h : s.get? kid = some k) :
    k ∈ s.keys ∧ k.kid = kid := ⟨List.mem_of_find?_eq_some h, by simpa using List.find?_some h⟩

theorem add_keys (s : Snapshot) (k : CachedKey) :
    (s.add k).1.keys = Catalog.put CachedKey.kid k s.keys := by
  unfold add
  split <;> rfl

theorem get?_add (s : Snapshot) (k : CachedKey) (kid : String) :
    (s.add k).1.get? kid = if k.kid = kid then some k else s.get? kid := by
  unfold get?
  rw [add_keys]
  split
  · rename_i h
    rw [← h]
    exact Catalog.find?_put_self _ k _
  · rename_i h
    exact Catalog.find?_put_of_ne _ k kid _ h

theorem active?_add (s : Snapshot) (k : CachedKey) (alg : Alg) :
    (s.add k).1.active? alg =
      if k.isActive ∧ k.alg = alg then some (elect k (s.active? alg)).1 else s.active? alg := by
  unfold add
  split
  · rename_i hk
    have halg : (elect k (s.active? k.alg)).1.alg = k.alg :=
      elect_alg fun other h => alg_of_active? h
    by_cases h : k.alg = alg
    · subst h
      rw [if_pos ⟨hk, rfl⟩]
      have hp := Catalog.find?_put_self CachedKey.alg (elect k (s.active? k.alg)).1 s.actives
      rw [halg] at hp
      exact hp
    · rw [if_neg (fun hc => h hc.2)]
      exact Catalog.find?_put_of_ne _ _ alg _ (by rw [halg]; exact h)
  · rename_i hk
    rw [if_neg (fun hc => hk hc.1)]
    rfl

def addAll (s : Snapshot) (ks : List CachedKey) : Snapshot := ks.foldl (fun s k => (s.add k).1) s

theorem extend_eq_ok_iff (e : Encryptor) (s s' : Snapshot) (rs : List Record) :
    (s.extend e rs).1 = .ok s' ↔
      ∃ ks, List.Forall₂ (fun r k => CachedKey.ofRecord e r = .ok k) rs ks ∧ s' = s.addAll ks := by
  induction rs generalizing s with
  | nil => simp [extend, addAll, eq_comm]
  | cons r rs ih =>
    unfold extend
    cases h : CachedKey.ofRecord e r with
    | error error => simp [List.forall₂_cons_left_iff, h]
    | ok k =>
      simp only [ih]
      constructor
      · intro hext
        obtain ⟨ks, hks, rfl⟩ := hext
        exact ⟨k :: ks, .cons h hks, rfl⟩
      · intro hext
        obtain ⟨ks, hks, rfl⟩ := hext
        cases hks with
        | cons hk hks =>
          rw [h] at hk
          cases hk
          exact ⟨_, hks, rfl⟩

section addAll

variable (s : Snapshot) {ks : List CachedKey}

theorem get?_addAll_of_not_mem {kid : String} (h : kid ∉ ks.map CachedKey.kid) :
    (s.addAll ks).get? kid = s.get? kid := by
  induction ks generalizing s with
  | nil => rfl
  | cons k ks ih =>
    rw [List.map_cons, List.mem_cons, not_or] at h
    refine (ih _ h.2).trans ?_
    rw [get?_add, if_neg (Ne.symm h.1)]

theorem get?_addAll_of_mem {k : CachedKey} (hd : (ks.map CachedKey.kid).Nodup) (h : k ∈ ks) :
    (s.addAll ks).get? k.kid = some k := by
  induction ks generalizing s with
  | nil => cases h
  | cons k' ks ih =>
    rw [List.map_cons, List.nodup_cons] at hd
    rcases List.mem_cons.mp h with rfl | h
    · refine (get?_addAll_of_not_mem _ hd.1).trans ?_
      rw [get?_add, if_pos rfl]
    · exact ih _ hd.2 h

theorem active?_addAll {alg : Alg}
    (h : (s.active? alg).isSome ∨ ∃ k ∈ ks, k.isActive ∧ k.alg = alg) :
    ((s.addAll ks).active? alg).isSome := by
  induction ks generalizing s with
  | nil => simpa [addAll] using h
  | cons k ks ih =>
    refine ih _ ?_
    rw [active?_add]
    split
    · exact .inl rfl
    · rename_i hk
      rcases h with h | ⟨k', hk', ha⟩
      · exact .inl h
      · rcases List.mem_cons.mp hk' with rfl | hk'
        · exact absurd ha hk
        · exact .inr ⟨k', hk', ha⟩

theorem mem_keys_addAll {k : CachedKey} (h : k ∈ (s.addAll ks).keys) : k ∈ s.keys ∨ k ∈ ks := by
  induction ks generalizing s with
  | nil => exact .inl h
  | cons k' ks ih =>
    rcases ih _ h with h | h
    · rw [add_keys] at h
      rcases Catalog.eq_or_mem_of_mem_put _ h with rfl | h
      · exact .inr List.mem_cons_self
      · exact .inl h
    · exact .inr (List.mem_cons_of_mem k' h)

end addAll

theorem records_of_opened {e : Encryptor} {rs : List Record} {ks : List CachedKey}
    (h : List.Forall₂ (fun r k => CachedKey.ofRecord e r = .ok k) rs ks) :
    ks.map CachedKey.record = rs := by
  induction h with
  | nil => rfl
  | cons hk _ ih => rw [List.map_cons, ih, CachedKey.record_of_ofRecord hk]

theorem nodup_of_opened {e : Encryptor} {rs : List Record} {ks : List CachedKey}
    (h : List.Forall₂ (fun r k => CachedKey.ofRecord e r = .ok k) rs ks)
    (hd : (rs.map Record.kid).Nodup) : (ks.map CachedKey.kid).Nodup := by
  rw [← records_of_opened h, List.map_map] at hd
  exact hd

theorem opened_self {e : Encryptor} {rs : List Record} {ks : List CachedKey}
    (h : List.Forall₂ (fun r k => CachedKey.ofRecord e r = .ok k) rs ks) :
    ∀ k ∈ ks, CachedKey.ofRecord e k.record = .ok k := by
  induction h with
  | nil => exact nofun
  | cons hk _ ih => exact List.forall_mem_cons.mpr ⟨by rwa [CachedKey.record_of_ofRecord hk], ih⟩

theorem opened_of_mem_keys {e : Encryptor} {rs : List Record} {s : Snapshot} {events : List Event}
    {k : CachedKey} (h : ofRecords e rs = (.ok s, events)) (hk : k ∈ s.keys) :
    k.record ∈ rs ∧ CachedKey.ofRecord e k.record = .ok k := by
  obtain ⟨ks, hks, rfl⟩ := (extend_eq_ok_iff e empty s rs).mp (congrArg Prod.fst h)
  rcases mem_keys_addAll _ hk with hk | hk
  · cases hk
  · exact ⟨records_of_opened hks ▸ List.mem_map_of_mem hk, opened_self hks k hk⟩

structure Reflects (s : Snapshot) (store : Store) : Prop where
  get : ∀ r ∈ store.records, ∃ k, s.get? r.kid = some k ∧ k.record.BecameFrom r
  active : ∀ alg, store.HasActive alg → (s.active? alg).isSome

theorem Reflects.of_evolvesTo {s : Snapshot} {store store' : Store} (h : s.Reflects store')
    (he : store.EvolvesTo store') : s.Reflects store := by
  refine ⟨fun r hr => ?_, fun alg ha => h.active alg (he.active alg ha)⟩
  obtain ⟨r', hr', hb⟩ := he.kept r hr
  obtain ⟨k, hk, hb'⟩ := h.get r' hr'
  rw [hb.kid_eq] at hk
  exact ⟨k, hk, hb'.trans hb⟩

theorem reflects_of_listing {e : Encryptor} {rs : List Record} {s : Snapshot} {events : List Event}
    {store : Store} (h : ofRecords e rs = (.ok s, events)) (hp : rs.Perm store.records) :
    s.Reflects store := by
  obtain ⟨ks, hks, rfl⟩ := (extend_eq_ok_iff e empty s rs).mp (congrArg Prod.fst h)
  have hrecords := records_of_opened hks
  have hd := nodup_of_opened hks ((hp.map Record.kid).nodup_iff.mpr store.distinct)
  have hmem : ∀ r ∈ store.records, ∃ k ∈ ks, k.record = r := by
    intro r hr
    have hr' := hp.mem_iff.mpr hr
    rw [← hrecords] at hr'
    exact List.mem_map.mp hr'
  constructor
  · intro r hr
    obtain ⟨k, hk, rfl⟩ := hmem r hr
    exact ⟨k, get?_addAll_of_mem _ hd hk, .refl _⟩
  · intro alg ha
    obtain ⟨r, hr, halg, hact⟩ := ha
    obtain ⟨k, hk, rfl⟩ := hmem r hr
    exact active?_addAll _ (.inr ⟨k, hk, hact, halg⟩)

end Snapshot
end Keyring
