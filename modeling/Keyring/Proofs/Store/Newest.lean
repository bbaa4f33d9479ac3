import Keyring.Record
import Mathlib.Data.List.Induction

set_option autoImplicit false

namespace Keyring.Record

section order

variable {a b c : Record}

theorem not_precedes_self (a : Record) : ¬ a.Precedes a := by
  rintro (h | ⟨-, h⟩)
  · exact Time.lt_irrefl _ h
  · exact String.lt_irrefl _ h

theorem Precedes.trans (h : a.Precedes b) (h' : b.Precedes c) : a.Precedes c := by
  rcases h with h | ⟨h, hk⟩ <;> rcases h' with h' | ⟨h', hk'⟩
  · exact .inl (Time.lt_trans h h')
  · exact .inl (h' ▸ h)
  · exact .inl (h ▸ h')
  · exact .inr ⟨h.trans h', String.lt_trans hk hk'⟩

theorem precedes_trichotomy (a b : Record) :
    a.Precedes b ∨ (a.createdAt = b.createdAt ∧ a.kid = b.kid) ∨ b.Precedes a := by
  rcases Time.lt_trichotomy a.createdAt b.createdAt with ht | ht | ht
  · exact .inl (.inl ht)
  · by_cases hlt : a.kid < b.kid
    · exact .inl (.inr ⟨ht, hlt⟩)
    · by_cases hgt : b.kid < a.kid
      · exact .inr (.inr (.inr ⟨ht.symm, hgt⟩))
      · exact .inr (.inl ⟨ht, String.le_antisymm (String.not_lt.mp hgt) (String.not_lt.mp hlt)⟩)
  · exact .inr (.inr (.inl ht))

/-- Only records of one id stand at the same place in the order. -/
theorem kid_eq_of_not_precedes (h : ¬ a.Precedes b) (h' : ¬ b.Precedes a) : a.kid = b.kid := by
  rcases precedes_trichotomy a b with hp | ⟨-, hk⟩ | hp
  · exact absurd hp h
  · exact hk
  · exact absurd hp h'

theorem Precedes.before_or_after (h : a.Precedes c) (b : Record) : a.Precedes b ∨ b.Precedes c := by
  rcases precedes_trichotomy a b with hp | ⟨ht, hk⟩ | hp
  · exact .inl hp
  · refine .inr ?_
    rwa [Precedes, ht, hk] at h
  · exact .inr (hp.trans h)

end order

variable {alg : Alg} {records records' : List Record} {r r' : Record}

/-- An active record of the algorithm that precedes no other one. -/
structure IsNewestActive (alg : Alg) (records : List Record) (r : Record) : Prop where
  mem : r ∈ records
  alg_eq : r.alg = alg
  active : r.isActive = true
  last : ∀ a ∈ records, a.alg = alg → a.isActive = true → ¬ r.Precedes a

theorem IsNewestActive.congr (h : IsNewestActive alg records r)
    (hm : ∀ a, a.alg = alg → (a ∈ records ↔ a ∈ records')) : IsNewestActive alg records' r where
  mem := (hm r h.alg_eq).mp h.mem
  alg_eq := h.alg_eq
  active := h.active
  last := fun a ha halg => h.last a ((hm a halg).mpr ha) halg

theorem IsNewestActive.kid_eq (h : IsNewestActive alg records r) (h' : IsNewestActive alg records r') :
    r.kid = r'.kid :=
  kid_eq_of_not_precedes (h.last r' h'.mem h'.alg_eq h'.active) (h'.last r h.mem h.alg_eq h.active)

theorem later_eq_or (b x : Record) : b.later x = b ∨ b.later x = x := by
  unfold later
  split
  · exact .inl rfl
  · exact .inr rfl

theorem not_precedes_of_later {a b x : Record} (h : ¬ b.Precedes a) : ¬ (b.later x).Precedes a := by
  unfold later
  split
  · exact h
  · rename_i hx
    exact fun hp => (hp.before_or_after b).elim hx h

theorem not_later_precedes (b x : Record) : ¬ (b.later x).Precedes x := by
  unfold later
  split
  · rename_i hx
    exact fun hp => not_precedes_self b (hp.trans hx)
  · exact not_precedes_self x

theorem newestActive?_append (alg : Alg) (records : List Record) (x : Record) :
    newestActive? alg (records ++ [x]) = if x.alg = alg ∧ x.isActive = true then
      some ((newestActive? alg records).elim x (Record.later · x)) else newestActive? alg records := by
  unfold newestActive?
  rw [List.filter_append, List.foldl_append]
  by_cases hx : x.alg = alg ∧ x.isActive = true
  · have hcounts : [x].filter (fun r => decide (r.alg = alg) && r.isActive) = [x] := by simp [hx]
    rw [if_pos hx, hcounts, List.foldl_cons, List.foldl_nil]
    split <;> simp [*]
  · have hcounts : [x].filter (fun r => decide (r.alg = alg) && r.isActive) = [] := by
      simpa [List.filter_eq_nil_iff] using hx
    rw [if_neg hx, hcounts, List.foldl_nil]

theorem IsNewestActive.append (h : IsNewestActive alg records r) {x : Record}
    (hx : ¬ (x.alg = alg ∧ x.isActive = true)) : IsNewestActive alg (records ++ [x]) r where
  mem := List.mem_append_left _ h.mem
  alg_eq := h.alg_eq
  active := h.active
  last := by
    intro a ha halg hactive
    rcases List.mem_append.mp ha with ha | ha
    · exact h.last a ha halg hactive
    · exact absurd (List.mem_singleton.mp ha ▸ ⟨halg, hactive⟩) hx

theorem IsNewestActive.append_later (h : IsNewestActive alg records r) {x : Record}
    (hx : x.alg = alg ∧ x.isActive = true) : IsNewestActive alg (records ++ [x]) (r.later x) := by
  have hlast : ∀ a ∈ records ++ [x], a.alg = alg → a.isActive = true → ¬ (r.later x).Precedes a := by
    intro a ha halg hactive
    rcases List.mem_append.mp ha with ha | ha
    · exact not_precedes_of_later (h.last a ha halg hactive)
    · exact List.mem_singleton.mp ha ▸ not_later_precedes r x
  rcases later_eq_or r x with heq | heq <;> rw [heq] at hlast ⊢
  · exact ⟨List.mem_append_left _ h.mem, h.alg_eq, h.active, hlast⟩
  · exact ⟨by simp, hx.1, hx.2, hlast⟩

theorem newestActive?_spec (alg : Alg) (records : List Record) :
    (newestActive? alg records = none → ∀ r ∈ records, ¬ (r.alg = alg ∧ r.isActive = true)) ∧
      ∀ r, newestActive? alg records = some r → IsNewestActive alg records r := by
  -- the search goes through the records in their order, so the last one is taken off
  induction records using List.reverseRecOn with
  | nil => exact ⟨fun _ _ hr => absurd hr List.not_mem_nil, nofun⟩
  | append_singleton records x ih =>
    rw [newestActive?_append]
    by_cases hx : x.alg = alg ∧ x.isActive = true
    · rw [if_pos hx]
      refine ⟨nofun, fun r h => ?_⟩
      cases h
      cases hb : newestActive? alg records with
      | none =>
        have hnone := ih.1 hb
        refine ⟨by simp, hx.1, hx.2, fun a ha halg hactive => ?_⟩
        rcases List.mem_append.mp ha with ha | ha
        · exact absurd ⟨halg, hactive⟩ (hnone a ha)
        · exact List.mem_singleton.mp ha ▸ not_precedes_self x
      | some b => exact (ih.2 b hb).append_later hx
    · rw [if_neg hx]
      refine ⟨fun hnone r hr => ?_, fun r h => (ih.2 r h).append hx⟩
      rcases List.mem_append.mp hr with hr | hr
      · exact ih.1 hnone r hr
      · exact List.mem_singleton.mp hr ▸ hx

theorem isNewestActive_of_newestActive? (h : newestActive? alg records = some r) :
    IsNewestActive alg records r := (newestActive?_spec alg records).2 r h

theorem newestActive?_eq_none_iff :
    newestActive? alg records = none ↔ ∀ r ∈ records, ¬ (r.alg = alg ∧ r.isActive = true) := by
  refine ⟨(newestActive?_spec alg records).1, fun h => Option.eq_none_iff_forall_ne_some.mpr fun r hr => ?_⟩
  have hr := isNewestActive_of_newestActive? hr
  exact h r hr.mem ⟨hr.alg_eq, hr.active⟩

end Keyring.Record
