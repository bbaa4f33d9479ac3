import Keyring.Proofs.Store.Handover

set_option autoImplicit false

namespace Keyring.Store

/-- Each of the algorithms has had a record handed in or not, in their order. -/
inductive HandedOver : List Alg → Store → Store → Prop where
  | nil (s : Store) : HandedOver [] s s
  | skip {alg : Alg} {algs : List Alg} {s s' : Store} (h : HandedOver algs s s') :
      HandedOver (alg :: algs) s s'
  | rotate {alg : Alg} {algs : List Alg} {new : Record} {s t s' : Store} (h : s.HandedIn alg new t)
      (hs : HandedOver algs t s') : HandedOver (alg :: algs) s s'

theorem HandedOver.refl (algs : List Alg) (s : Store) : HandedOver algs s s := by
  induction algs with
  | nil => exact .nil s
  | cons alg algs ih => exact .skip ih

variable {s t s' : Store} {alg other : Alg} {new r : Record} {old : Option Record}

/-- A new active record of an algorithm has come, and the newest active one there was has been put out
of use. -/
structure Replaced (s : Store) (alg : Alg) (new : Record) (old : Option Record) (s' : Store) : Prop where
  new_alg : new.alg = alg
  new_active : new.isActive = true
  new_kid : ∀ a ∈ s.records, a.kid ≠ new.kid
  newest : ∀ o, old = some o → Record.IsNewestActive alg s.records o
  none_active : old = none → ¬ s.HasActive alg
  mem_iff : ∀ a, a.alg = alg → (a ∈ s'.records ↔
    a = new ∨ (∃ o, old = some o ∧ a = o.deactivated) ∨ (a ∈ s.records ∧ old ≠ some a))

theorem HandedIn.replaced (h : s.HandedIn alg new s') : ∃ old, s.Replaced alg new old s' := by
  obtain ⟨old, h, hnewest⟩ := h.handover
  refine ⟨old, h.new_alg, h.new_active, h.new_kid, hnewest, ?_, fun a _ => h.mem_iff a⟩
  rintro hnone ⟨a, ha, hactive⟩
  exact h.none_active hnone a ha hactive

theorem Replaced.new_mem (h : s.Replaced alg new old s') : new ∈ s'.records :=
  (h.mem_iff new h.new_alg).mpr (.inl rfl)

theorem SameOf.hasActive_iff (h : SameOf alg s s') : s'.HasActive alg ↔ s.HasActive alg := by
  constructor <;> rintro ⟨a, ha, halg, hactive⟩
  · exact ⟨a, (h a halg).mp ha, halg, hactive⟩
  · exact ⟨a, (h a halg).mpr ha, halg, hactive⟩

theorem Replaced.of_sameOf (h : s.Replaced alg new old t) (hs : SameOf alg t s') :
    s.Replaced alg new old s' :=
  { h with mem_iff := fun a halg => (hs a halg).trans (h.mem_iff a halg) }

theorem Replaced.after_sameOf (he : s.EvolvesTo t) (hs : SameOf alg s t) (h : t.Replaced alg new old s') :
    s.Replaced alg new old s' where
  new_alg := h.new_alg
  new_active := h.new_active
  new_kid := by
    intro a ha
    obtain ⟨a', ha', hbecame⟩ := he.kept a ha
    exact hbecame.kid_eq ▸ h.new_kid a' ha'
  newest := fun o ho => (h.newest o ho).congr hs
  none_active := fun hnone hactive => h.none_active hnone (hs.hasActive_iff.mpr hactive)
  mem_iff := fun a halg => by rw [h.mem_iff a halg, hs a halg]

theorem HandedOver.sameOf_or_replaced {algs : List Alg} (h : HandedOver algs s s') (hd : algs.Nodup)
    (alg : Alg) : SameOf alg s s' ∨ alg ∈ algs ∧ ∃ new old, s.Replaced alg new old s' := by
  induction h with
  | nil s => exact .inl fun _ _ => Iff.rfl
  | skip _ ih =>
    exact (ih (List.nodup_cons.mp hd).2).imp_right fun ⟨hmem, hr⟩ => ⟨List.mem_cons_of_mem _ hmem, hr⟩
  | @rotate alg' algs new s t s' hin _ ih =>
    obtain ⟨hnot, hrest⟩ := List.nodup_cons.mp hd
    by_cases heq : alg = alg'
    -- the algorithm has had its turn, and does not come again
    · subst heq
      obtain ⟨old, hreplaced⟩ := hin.replaced
      rcases ih hrest with hsame | ⟨hmem, -⟩
      · exact .inr ⟨List.mem_cons_self, new, old, hreplaced.of_sameOf hsame⟩
      · exact absurd hmem hnot
    · have hsame := hin.sameOf heq
      rcases ih hrest with hsame' | ⟨hmem, new', old', hreplaced⟩
      · exact .inl fun a halg => (hsame' a halg).trans (hsame a halg)
      · exact .inr ⟨List.mem_cons_of_mem _ hmem, new', old', hreplaced.after_sameOf hin.evolves hsame⟩

theorem deactivated_not_mem (hr : r ∈ s.records) (hactive : r.isActive = true) :
    r.deactivated ∉ s.records := by
  intro hd
  rw [← s.eq_of_kid_eq hd hr rfl] at hactive
  cases hactive

theorem Replaced.old_eq (h : s.Replaced alg new old s') (hr : r ∈ s.records) (halg : r.alg = alg)
    (hactive : r.isActive = true) (hd : r.deactivated ∈ s'.records) : old = some r := by
  rcases (h.mem_iff r.deactivated halg).mp hd with heq | ⟨o, ho, heq⟩ | ⟨hmem, -⟩
  · have hnew := h.new_active
    rw [← heq] at hnew
    cases hnew
  · have hkid : o.kid = r.kid := (congrArg Record.kid heq).symm
    rw [ho, s.eq_of_kid_eq (h.newest o ho).mem hr hkid]
  · exact absurd hmem (deactivated_not_mem hr hactive)

theorem Replaced.deactivated_mem (h : s.Replaced alg new old s')
    (hr : Record.IsNewestActive alg s.records r) : old = some r ∧ r.deactivated ∈ s'.records := by
  cases old with
  | none => exact absurd ⟨r, hr.mem, hr.alg_eq, hr.active⟩ (h.none_active rfl)
  | some o =>
    have hnewest := h.newest o rfl
    obtain rfl : o = r := s.eq_of_kid_eq hnewest.mem hr.mem (hnewest.kid_eq hr)
    exact ⟨rfl, (h.mem_iff o.deactivated hr.alg_eq).mpr (.inr (.inl ⟨o, rfl, rfl⟩))⟩

end Keyring.Store
