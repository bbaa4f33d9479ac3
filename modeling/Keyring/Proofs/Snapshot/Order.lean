import Keyring.Proofs.Snapshot.Content
import Keyring.Proofs.Store.Newest
import Mathlib.Data.List.Perm.Basic

set_option autoImplicit false

namespace Keyring

namespace Snapshot

/-- What the active key of an algorithm is after some keys: one that comes after all active ones in front of
it, and before none of those behind it. -/
def Elects (alg : Alg) (ks : List CachedKey) : Option CachedKey → Prop
  | none => ∀ k ∈ ks, ¬ (k.isActive = true ∧ k.alg = alg)
  | some k => (k.isActive = true ∧ k.alg = alg) ∧ ∃ former later, ks = former ++ k :: later ∧
      (∀ other ∈ former, other.isActive = true ∧ other.alg = alg → other.record.Precedes k.record) ∧
      ∀ other ∈ later, other.isActive = true ∧ other.alg = alg → ¬ k.record.Precedes other.record

def IsNewest (alg : Alg) (ks : List CachedKey) : Option CachedKey → Prop
  | none => ∀ k ∈ ks, ¬ (k.isActive = true ∧ k.alg = alg)
  | some k => (k ∈ ks ∧ k.isActive = true ∧ k.alg = alg) ∧
      ∀ other ∈ ks, other.isActive = true → other.alg = alg → ¬ k.record.Precedes other.record

section elected

variable {alg : Alg} {ks : List CachedKey} {k : CachedKey}

theorem Elects.append {o : Option CachedKey} (h : Elects alg ks o)
    (hk : k.isActive = true ∧ k.alg = alg → ∃ best, o = some best ∧ ¬ best.record.Precedes k.record) :
    Elects alg (ks ++ [k]) o := by
  cases o with
  | none =>
    refine List.forall_mem_append.mpr ⟨h, List.forall_mem_singleton.mpr fun hc => ?_⟩
    obtain ⟨best, hbest, -⟩ := hk hc
    cases hbest
  | some best =>
    obtain ⟨hbest, former, later, rfl, hformer, hlater⟩ := h
    refine ⟨hbest, former, later ++ [k], by simp, hformer,
      List.forall_mem_append.mpr ⟨hlater, List.forall_mem_singleton.mpr fun hc => ?_⟩⟩
    obtain ⟨_, hsome, hnot⟩ := hk hc
    cases hsome
    exact hnot

theorem elects_elect {o : Option CachedKey} (h : Elects alg ks o) (hk : k.isActive = true ∧ k.alg = alg) :
    Elects alg (ks ++ [k]) (some (elect k o).1) := by
  cases o with
  | none => exact ⟨hk, ks, [], rfl, fun other ho hc => absurd hc (h other ho), fun _ ho => absurd ho List.not_mem_nil⟩
  | some best =>
    by_cases hs : k.Supersedes best
    · simp only [elect, if_pos hs]
      obtain ⟨-, former, later, rfl, hformer, hlater⟩ := h
      refine ⟨hk, former ++ best :: later, [], rfl, fun other ho hc => ?_, fun _ ho => absurd ho List.not_mem_nil⟩
      rcases List.mem_append.mp ho with ho | ho
      · exact (hformer other ho hc).trans hs
      rcases List.mem_cons.mp ho with rfl | ho
      · exact hs
      · exact (Record.Precedes.before_or_after hs other.record).resolve_left (hlater other ho hc)
    · simp only [elect, if_neg hs]
      exact h.append fun _ => ⟨best, rfl, hs⟩

theorem elects_add {s : Snapshot} (k : CachedKey) (h : Elects alg ks (s.active? alg)) :
    Elects alg (ks ++ [k]) ((s.add k).1.active? alg) := by
  rw [active?_add]
  split
  · rename_i hk
    exact elects_elect h hk
  · rename_i hk
    exact h.append fun hc => absurd hc hk

theorem elects_addAll (ks : List CachedKey) : Elects alg ks ((empty.addAll ks).active? alg) := by
  induction ks using List.reverseRecOn with
  | nil => exact fun _ hk => absurd hk List.not_mem_nil
  | append_singleton ks k ih =>
    simp only [addAll, List.foldl_append, List.foldl_cons, List.foldl_nil]
    exact elects_add k ih

theorem Elects.isNewest {o : Option CachedKey} (h : Elects alg ks o) : IsNewest alg ks o := by
  cases o with
  | none => exact h
  | some k =>
    obtain ⟨hk, former, later, rfl, hformer, hlater⟩ := h
    refine ⟨⟨by simp, hk⟩, fun other ho hactive halg hp => ?_⟩
    rcases List.mem_append.mp ho with ho | ho
    · exact Record.not_precedes_self _ (hp.trans (hformer other ho ⟨hactive, halg⟩))
    rcases List.mem_cons.mp ho with rfl | ho
    · exact Record.not_precedes_self _ hp
    · exact hlater other ho ⟨hactive, halg⟩ hp

theorem isNewest_addAll (ks : List CachedKey) : IsNewest alg ks ((empty.addAll ks).active? alg) :=
  (elects_addAll ks).isNewest

end elected

section newest

variable {alg : Alg} {ks ks' : List CachedKey}

/-- Among keys of distinct ids there is one answer, in whatever order they come. -/
theorem IsNewest.unique {o o' : Option CachedKey} (h : IsNewest alg ks o) (h' : IsNewest alg ks' o')
    (hp : ks.Perm ks') (hd : (ks.map CachedKey.kid).Nodup) : o = o' := by
  cases o with
  | none =>
    cases o' with
    | none => rfl
    | some k' => exact absurd h'.1.2 (h k' (hp.mem_iff.mpr h'.1.1))
  | some k =>
    cases o' with
    | none => exact absurd h.1.2 (h' k (hp.mem_iff.mp h.1.1))
    | some k' =>
      have hk' := hp.mem_iff.mpr h'.1.1
      have hkid : k.kid = k'.kid := Record.kid_eq_of_not_precedes
        (h.2 k' hk' h'.1.2.1 h'.1.2.2) (h'.2 k (hp.mem_iff.mp h.1.1) h.1.2.1 h.1.2.2)
      rw [List.inj_on_of_nodup_map hd h.1.1 hk' hkid]

end newest

theorem get?_addAll_eq_some_iff {ks : List CachedKey} (hd : (ks.map CachedKey.kid).Nodup) {kid : String}
    {k : CachedKey} : (empty.addAll ks).get? kid = some k ↔ k ∈ ks ∧ k.kid = kid := by
  constructor
  · intro h
    obtain ⟨hk, rfl⟩ := mem_of_get? h
    rcases mem_keys_addAll _ hk with hk | hk
    · cases hk
    · exact ⟨hk, rfl⟩
  · rintro ⟨hk, rfl⟩
    exact get?_addAll_of_mem _ hd hk

/-- The snapshots answer alike. -/
structure Agrees (s s' : Snapshot) : Prop where
  get : ∀ kid, s.get? kid = s'.get? kid
  active : ∀ alg, s.active? alg = s'.active? alg

theorem ofRecords_perm {e : Encryptor} {rs rs' : List Record} {s : Snapshot}
    (h : (ofRecords e rs).1 = .ok s) (hp : rs'.Perm rs) (hd : (rs.map Record.kid).Nodup) :
    ∃ s', (ofRecords e rs').1 = .ok s' ∧ s.Agrees s' := by
  obtain ⟨ks, hks, rfl⟩ := (extend_eq_ok_iff e empty s rs).mp h
  obtain ⟨ks', hks', hperm⟩ := List.perm_comp_forall₂ hp hks
  have hnodup := nodup_of_opened hks hd
  have hnodup' : (ks'.map CachedKey.kid).Nodup := (hperm.map _).nodup_iff.mpr hnodup
  refine ⟨_, (extend_eq_ok_iff e empty _ rs').mpr ⟨ks', hks', rfl⟩, fun kid => ?_, fun alg => ?_⟩
  · refine Option.ext fun k => ?_
    rw [get?_addAll_eq_some_iff hnodup, get?_addAll_eq_some_iff hnodup', hperm.mem_iff]
  · exact (isNewest_addAll ks).unique (isNewest_addAll ks') hperm.symm hnodup

theorem isNewest_of_ofRecords {e : Encryptor} {rs : List Record} {s : Snapshot} {alg : Alg}
    (h : (ofRecords e rs).1 = .ok s) :
    ∃ ks, ks.map CachedKey.record = rs ∧ IsNewest alg ks (s.active? alg) := by
  obtain ⟨ks, hks, rfl⟩ := (extend_eq_ok_iff e empty s rs).mp h
  exact ⟨ks, records_of_opened hks, isNewest_addAll ks⟩

theorem get?_of_active? {e : Encryptor} {rs : List Record} {s : Snapshot}
    (h : (ofRecords e rs).1 = .ok s) (hd : (rs.map Record.kid).Nodup) {alg : Alg} {k : CachedKey}
    (hk : s.active? alg = some k) : s.get? k.kid = some k := by
  obtain ⟨ks, hks, rfl⟩ := (extend_eq_ok_iff e empty s rs).mp h
  have hnewest := @isNewest_addAll alg ks
  rw [hk] at hnewest
  exact get?_addAll_of_mem _ (nodup_of_opened hks hd) hnewest.1.1

end Snapshot
end Keyring
