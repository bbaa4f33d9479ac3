import Keyring.Proofs.Snapshot.Order

set_option autoImplicit false

namespace Keyring.Snapshot

/-- What can be relied on in a snapshot. -/
structure WellFormed (s : Snapshot) : Prop where
  active : ∀ alg k, s.active? alg = some k →
    k.isActive = true ∧ k.alg = alg ∧ s.get? k.kid = some k
  kind : ∀ k ∈ s.keys, k.privateKey.alg = k.alg ∧ k.publicKey.alg = k.alg
  filed : ∀ k ∈ s.keys, s.get? k.kid = some k
  sorted : s.kids.Pairwise (· < ·)
  size : s.kids.length = s.size
  found : ∀ kid, kid ∈ s.kids ↔ (s.get? kid).isSome = true

section kids

variable {s : Snapshot}

theorem mem_kids_iff {kid : String} : kid ∈ s.kids ↔ (s.get? kid).isSome = true := by
  rw [kids, List.mem_mergeSort, get?, Catalog.find?, List.find?_isSome]
  simp [List.mem_map]

theorem kids_length (s : Snapshot) : s.kids.length = s.size := by
  rw [kids, List.length_mergeSort, List.length_map, size]

theorem kids_sorted (h : (s.keys.map CachedKey.kid).Nodup) : s.kids.Pairwise (· < ·) := by
  have hsorted : s.kids.Pairwise fun a b => (!decide (b < a)) = true := by
    refine List.pairwise_mergeSort (fun a b c hab hbc => ?_) (fun a b => ?_) _
    · simp only [Bool.not_eq_true', decide_eq_false_iff_not, String.not_lt] at *
      exact String.le_trans hab hbc
    · simp only [Bool.or_eq_true, Bool.not_eq_true', decide_eq_false_iff_not, String.not_lt]
      exact String.le_total a b
  have hdistinct : s.kids.Nodup := (List.mergeSort_perm _ _).nodup_iff.mpr h
  refine (hsorted.and hdistinct).imp fun {a b} hab => ?_
  obtain ⟨hle, hne⟩ := hab
  simp only [Bool.not_eq_true', decide_eq_false_iff_not, String.not_lt] at hle
  exact String.not_le.mp fun hge => hne (String.le_antisymm hle hge)

theorem get?_of_mem (h : (s.keys.map CachedKey.kid).Nodup) {k : CachedKey} (hk : k ∈ s.keys) :
    s.get? k.kid = some k := by
  obtain ⟨k', hk'⟩ := Option.isSome_iff_exists.mp
    (mem_kids_iff.mp (List.mem_mergeSort.mpr (List.mem_map_of_mem hk)))
  obtain ⟨hmem, hkid⟩ := mem_of_get? hk'
  rw [hk', List.inj_on_of_nodup_map h hmem hk hkid]

end kids

theorem addAll_nodup {s : Snapshot} (ks : List CachedKey) (h : (s.keys.map CachedKey.kid).Nodup) :
    ((s.addAll ks).keys.map CachedKey.kid).Nodup := by
  induction ks generalizing s with
  | nil => exact h
  | cons k ks ih =>
    refine ih ?_
    rw [add_keys]
    exact Catalog.put_nodup _ k _ h

theorem wellFormed_empty : WellFormed empty where
  active := by
    intro alg k hk
    cases hk
  kind := fun _ hk => absurd hk List.not_mem_nil
  filed := fun _ hk => absurd hk List.not_mem_nil
  sorted := kids_sorted List.nodup_nil
  size := kids_length _
  found := fun _ => mem_kids_iff

theorem kind_of_ofRecords {e : Encryptor} {rs : List Record} {s : Snapshot} {events : List Event}
    (h : ofRecords e rs = (.ok s, events)) {k : CachedKey} (hk : k ∈ s.keys) :
    k.privateKey.alg = k.alg ∧ k.publicKey.alg = k.alg := by
  have hopened := (CachedKey.ofRecord_eq_ok_iff.mp (opened_of_mem_keys h hk).2).2.1
  exact ⟨hopened, k.privateKey.alg_publicKey.trans hopened⟩

/-- A snapshot of records with distinct ids is well formed, whatever their order is and however many of
them are active. -/
theorem wellFormed_ofRecords {e : Encryptor} {rs : List Record} {s : Snapshot} {events : List Event}
    (h : ofRecords e rs = (.ok s, events)) (hd : (rs.map Record.kid).Nodup) : s.WellFormed := by
  have hok := congrArg Prod.fst h
  have hdistinct : (s.keys.map CachedKey.kid).Nodup := by
    obtain ⟨ks, -, rfl⟩ := (extend_eq_ok_iff e empty s rs).mp hok
    exact addAll_nodup ks List.nodup_nil
  constructor
  case active =>
    intro alg k hk
    obtain ⟨ks, -, hnewest⟩ := @isNewest_of_ofRecords _ _ _ alg hok
    rw [hk] at hnewest
    exact ⟨hnewest.1.2.1, hnewest.1.2.2, get?_of_active? hok hd hk⟩
  case kind => exact fun k hk => kind_of_ofRecords h hk
  case filed => exact fun k hk => get?_of_mem hdistinct hk
  case sorted => exact kids_sorted hdistinct
  case size => exact kids_length s
  case found => exact fun kid => mem_kids_iff

end Keyring.Snapshot
