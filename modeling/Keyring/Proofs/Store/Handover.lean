import Keyring.Proofs.Store.Evolution
import Keyring.Proofs.Store.Newest

set_option autoImplicit false

namespace Keyring

theorem Catalog.mem_put_iff {κ α : Type} [DecidableEq κ] (key : α → κ) {x y : α} {xs : List α}
    (hd : (xs.map key).Nodup) : y ∈ put key x xs ↔ y = x ∨ (y ∈ xs ∧ key y ≠ key x) := by
  constructor
  · intro hy
    rcases eq_or_mem_of_mem_put key hy with rfl | hmem
    · exact .inl rfl
    · by_cases hk : key y = key x
      · have hx := mem_put_self key x xs
        exact .inl (List.inj_on_of_nodup_map (put_nodup key x xs hd) hy hx hk)
      · exact .inr ⟨hmem, hk⟩
  · rintro (rfl | ⟨hmem, hk⟩)
    · exact mem_put_self key y xs
    · exact mem_put_of_ne key hmem hk

namespace Store

variable {s s' : Store} {alg other : Alg} {new : Record}

theorem mem_insert_iff {r a : Record} :
    a ∈ (s.insert r).records ↔ a = r ∨ (a ∈ s.records ∧ a.kid ≠ r.kid) :=
  Catalog.mem_put_iff Record.kid s.distinct

theorem kid_ne_of_free {a : Record} (h : s.contains new.kid = false) (ha : a ∈ s.records) :
    a.kid ≠ new.kid := by
  intro hkid
  rw [← hkid, contains_of_mem ha] at h
  cases h

/-- The store has taken in a new active record of an algorithm, and the deactivated form of the newest
active one in a listing. -/
def HandedIn (s : Store) (alg : Alg) (new : Record) (s' : Store) : Prop :=
  ∃ records, records.Perm s.records ∧ new.alg = alg ∧ new.isActive = true ∧
    s.rotate new ((Record.newestActive? alg records).map Record.deactivated) = .ok s'

/-- The records after that: the new one, the old one in its deactivated form, and all others. -/
structure Handover (s : Store) (alg : Alg) (new : Record) (old : Option Record) (s' : Store) : Prop where
  new_alg : new.alg = alg
  new_active : new.isActive = true
  new_kid : ∀ a ∈ s.records, a.kid ≠ new.kid
  none_active : old = none → ∀ a ∈ s.records, ¬ (a.alg = alg ∧ a.isActive = true)
  old_active : ∀ o, old = some o → o ∈ s.records ∧ o.alg = alg ∧ o.isActive = true
  mem_iff : ∀ a, a ∈ s'.records ↔
    a = new ∨ (∃ o, old = some o ∧ a = o.deactivated) ∨ (a ∈ s.records ∧ old ≠ some a)

theorem handover_of_rotate {records : List Record} (hperm : records.Perm s.records) (halg : new.alg = alg)
    (hactive : new.isActive = true)
    (hr : s.rotate new ((Record.newestActive? alg records).map Record.deactivated) = .ok s') :
    s.Handover alg new (Record.newestActive? alg records) s' := by
  have hfree := (rotate_eq_ok hr).1
  refine ⟨halg, hactive, fun a ha => kid_ne_of_free hfree ha,
    fun hnone a ha => ?_, fun o ho => ?_, fun a => ?_⟩
  · exact Record.newestActive?_eq_none_iff.mp hnone a (hperm.mem_iff.mpr ha)
  · have ho := Record.isNewestActive_of_newestActive? ho
    exact ⟨hperm.mem_iff.mp ho.mem, ho.alg_eq, ho.active⟩
  obtain ⟨-, ⟨hnone, rfl⟩ | ⟨o', ho', hkid, rfl⟩⟩ := rotate_eq_ok hr
  · rw [Option.map_eq_none_iff] at hnone
    rw [hnone, mem_insert_iff]
    simp only [reduceCtorEq, false_and, exists_false, ne_eq, not_false_eq_true, and_true, false_or]
    exact or_congr_right (and_iff_left_of_imp (kid_ne_of_free hfree))
  · obtain ⟨o, ho, rfl⟩ := Option.map_eq_some_iff.mp ho'
    have hmem := hperm.mem_iff.mp (Record.isNewestActive_of_newestActive? ho).mem
    rw [ho, mem_insert_iff, mem_insert_iff]
    simp only [Option.some.injEq, ↓existsAndEq, true_and, ne_eq]
    constructor
    · rintro (rfl | ⟨rfl | ⟨ha, hne⟩, -⟩)
      · exact .inl rfl
      · exact .inr (.inl rfl)
      · exact .inr (.inr ⟨ha, fun heq => hne (heq ▸ rfl)⟩)
    · rintro (rfl | rfl | ⟨ha, hne⟩)
      · exact .inl rfl
      · exact .inr ⟨.inl rfl, hkid⟩
      · refine .inr ⟨.inr ⟨ha, fun heq => hne ?_⟩, kid_ne_of_free hfree ha⟩
        exact s.eq_of_kid_eq hmem ha heq.symm

theorem HandedIn.handover (h : s.HandedIn alg new s') : ∃ old, s.Handover alg new old s' ∧
    ∀ o, old = some o → Record.IsNewestActive alg s.records o := by
  obtain ⟨records, hperm, halg, hactive, hr⟩ := h
  refine ⟨_, handover_of_rotate hperm halg hactive hr, fun o ho => ?_⟩
  exact (Record.isNewestActive_of_newestActive? ho).congr fun a _ => hperm.mem_iff

theorem HandedIn.evolves (h : s.HandedIn alg new s') : s.EvolvesTo s' := by
  obtain ⟨records, hperm, halg, hactive, hr⟩ := h
  refine rotate_evolves hr hactive fun o ho => ?_
  obtain ⟨r, hr, rfl⟩ := Option.map_eq_some_iff.mp ho
  have hr := Record.isNewestActive_of_newestActive? hr
  exact ⟨r, hperm.mem_iff.mp hr.mem, hr.alg_eq.trans halg.symm, rfl⟩

/-- Of each algorithm at most one record is active. -/
def OneActive (s : Store) : Prop :=
  ∀ a ∈ s.records, ∀ b ∈ s.records, a.isActive = true → b.isActive = true → a.alg = b.alg → a = b

instance (s : Store) : Decidable s.OneActive :=
  inferInstanceAs (Decidable (∀ a ∈ s.records, ∀ b ∈ s.records, _))

theorem Handover.active_iff {old : Option Record} (h : s.Handover alg new old s') (ho : s.OneActive)
    {a : Record} : a ∈ s'.records ∧ a.alg = alg ∧ a.isActive = true ↔ a = new := by
  constructor
  · rintro ⟨ha, halg, hactive⟩
    rcases (h.mem_iff a).mp ha with rfl | ⟨o, -, rfl⟩ | ⟨ha, hne⟩
    · rfl
    · cases hactive
    cases old with
    | none => exact absurd ⟨halg, hactive⟩ (h.none_active rfl a ha)
    | some o =>
      obtain ⟨homem, hoalg, hoactive⟩ := h.old_active o rfl
      exact absurd (congrArg some (ho o homem a ha hoactive hactive (hoalg.trans halg.symm))) hne
  · rintro rfl
    exact ⟨(h.mem_iff a).mpr (.inl rfl), h.new_alg, h.new_active⟩

theorem HandedIn.active_iff (h : s.HandedIn alg new s') (ho : s.OneActive) {a : Record} :
    a ∈ s'.records ∧ a.alg = alg ∧ a.isActive = true ↔ a = new :=
  let ⟨_, h, _⟩ := h.handover
  h.active_iff ho

def SameOf (alg : Alg) (s s' : Store) : Prop := ∀ a, a.alg = alg → (a ∈ s'.records ↔ a ∈ s.records)

theorem HandedIn.sameOf (h : s.HandedIn alg new s') (hne : other ≠ alg) : SameOf other s s' := by
  obtain ⟨old, h, -⟩ := h.handover
  intro a halg
  rw [h.mem_iff a]
  constructor
  · rintro (rfl | ⟨o, ho, rfl⟩ | ⟨ha, -⟩)
    · exact absurd (halg.symm.trans h.new_alg) hne
    · exact absurd (halg.symm.trans (h.old_active o ho).2.1) hne
    · exact ha
  · intro ha
    exact .inr (.inr ⟨ha, fun ho => hne (halg.symm.trans (h.old_active a ho).2.1)⟩)

theorem HandedIn.oneActive (h : s.HandedIn alg new s') (ho : s.OneActive) : s'.OneActive := by
  intro a ha b hb hactive hactive' halg
  by_cases hnew : b.alg = alg
  · rw [(h.active_iff ho).mp ⟨ha, halg.trans hnew, hactive⟩, (h.active_iff ho).mp ⟨hb, hnew, hactive'⟩]
  · have hsame := h.sameOf hnew
    exact ho a ((hsame a halg).mp ha) b ((hsame b rfl).mp hb) hactive hactive' halg

theorem HandedIn.deactivated_mem (h : s.HandedIn alg new s') (ho : s.OneActive) {a : Record}
    (ha : a ∈ s.records) (halg : a.alg = alg) (hactive : a.isActive = true) :
    a.deactivated ∈ s'.records := by
  obtain ⟨old, h, -⟩ := h.handover
  cases old with
  | none => exact absurd ⟨halg, hactive⟩ (h.none_active rfl a ha)
  | some o =>
    obtain ⟨homem, hoalg, hoactive⟩ := h.old_active o rfl
    have heq : o = a := ho o homem a ha hoactive hactive (hoalg.trans halg.symm)
    exact (h.mem_iff _).mpr (.inr (.inl ⟨o, rfl, by rw [heq]⟩))

end Store
end Keyring
