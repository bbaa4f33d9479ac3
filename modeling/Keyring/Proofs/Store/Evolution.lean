import Keyring.Store
import Mathlib.Data.List.Nodup

/-!
How a store evolves when rotations are all that happens to it: a record stays, at most it becomes
inactive, and an algorithm that has an active record keeps having one.
-/
set_option autoImplicit false

namespace Keyring

namespace Catalog

variable {κ α : Type} [DecidableEq κ]

theorem mem_put_self (key : α → κ) (x : α) (xs : List α) : x ∈ put key x xs := by
  induction xs with
  | nil => simp [put]
  | cons y ys ih =>
    unfold put
    split
    · exact List.mem_cons_self
    · exact List.mem_cons_of_mem y ih

theorem mem_put_of_ne (key : α → κ) {x y : α} {xs : List α} (h : y ∈ xs) (hne : key y ≠ key x) :
    y ∈ put key x xs := by
  induction xs with
  | nil => cases h
  | cons z zs ih =>
    unfold put
    split
    · rename_i hz
      rcases List.mem_cons.mp h with rfl | h
      · exact absurd hz hne
      · exact List.mem_cons_of_mem x h
    · rcases List.mem_cons.mp h with rfl | h
      · exact List.mem_cons_self
      · exact List.mem_cons_of_mem z (ih h)

theorem eq_or_mem_of_mem_put (key : α → κ) {x y : α} {xs : List α} (h : y ∈ put key x xs) :
    y = x ∨ y ∈ xs := by
  induction xs with
  | nil => exact .inl (by simpa [put] using h)
  | cons z zs ih =>
    unfold put at h
    split at h
    · exact (List.mem_cons.mp h).imp_right (List.mem_cons_of_mem z)
    · rcases List.mem_cons.mp h with rfl | h
      · exact .inr List.mem_cons_self
      · exact (ih h).imp_right (List.mem_cons_of_mem z)

end Catalog

namespace Record

/-- A record once listed in its present form: as it was, or inactive since. -/
def BecameFrom (r' r : Record) : Prop := r' = r ∨ r' = r.deactivated

def SameKey (r r' : Record) : Prop := r.deactivated = r'.deactivated

theorem deactivated_eq_self {r : Record} (h : r.isActive = false) : r.deactivated = r := by
  cases r
  cases h
  rfl

namespace BecameFrom

variable {a b c : Record}

theorem refl (r : Record) : r.BecameFrom r := .inl rfl

theorem trans (h : c.BecameFrom b) (h' : b.BecameFrom a) : c.BecameFrom a := by
  rcases h with rfl | rfl <;> rcases h' with rfl | rfl
  · exact .inl rfl
  · exact .inr rfl
  · exact .inr rfl
  · exact .inr rfl

theorem kid_eq (h : b.BecameFrom a) : b.kid = a.kid := by rcases h with rfl | rfl <;> rfl

theorem alg_eq (h : b.BecameFrom a) : b.alg = a.alg := by rcases h with rfl | rfl <;> rfl

theorem deactivated_eq (h : b.BecameFrom a) : b.deactivated = a.deactivated := by
  rcases h with rfl | rfl <;> rfl

theorem eq_of_inactive (h : b.BecameFrom a) (ha : a.isActive = false) : b = a := by
  rcases h with rfl | rfl
  · rfl
  · exact deactivated_eq_self ha

end BecameFrom

end Record

namespace Store

def HasActive (s : Store) (alg : Alg) : Prop := ∃ r ∈ s.records, r.alg = alg ∧ r.isActive = true

structure EvolvesTo (s s' : Store) : Prop where
  kept : ∀ r ∈ s.records, ∃ r' ∈ s'.records, r'.BecameFrom r
  active : ∀ alg, s.HasActive alg → s'.HasActive alg

namespace EvolvesTo

variable {s s' s'' : Store}

theorem refl (s : Store) : s.EvolvesTo s := ⟨fun r hr => ⟨r, hr, .refl r⟩, fun _ h => h⟩

theorem trans (h : s.EvolvesTo s') (h' : s'.EvolvesTo s'') : s.EvolvesTo s'' := by
  refine ⟨fun r hr => ?_, fun alg ha => h'.active alg (h.active alg ha)⟩
  obtain ⟨r', hr', hb⟩ := h.kept r hr
  obtain ⟨r'', hr'', hb'⟩ := h'.kept r' hr'
  exact ⟨r'', hr'', hb'.trans hb⟩

end EvolvesTo

theorem eq_of_kid_eq (s : Store) {a b : Record} (ha : a ∈ s.records) (hb : b ∈ s.records)
    (h : a.kid = b.kid) : a = b := List.inj_on_of_nodup_map s.distinct ha hb h

theorem EvolvesTo.becameFrom {s s' : Store} (h : s.EvolvesTo s') {a b : Record} (ha : a ∈ s.records)
    (hb : b ∈ s'.records) (hk : a.kid = b.kid) : b.BecameFrom a := by
  obtain ⟨a', ha', hbecame⟩ := h.kept a ha
  rwa [s'.eq_of_kid_eq hb ha' (hk.symm.trans hbecame.kid_eq.symm)]

theorem contains_of_mem {s : Store} {r : Record} (h : r ∈ s.records) : s.contains r.kid = true := by
  unfold contains get? Catalog.find?
  rw [List.find?_isSome]
  exact ⟨r, h, by simp⟩

theorem mem_insert_self (s : Store) (r : Record) : r ∈ (s.insert r).records :=
  Catalog.mem_put_self _ r _

theorem mem_insert_of_ne {s : Store} {a r : Record} (h : a ∈ s.records) (hne : a.kid ≠ r.kid) :
    a ∈ (s.insert r).records := Catalog.mem_put_of_ne _ h hne

theorem mem_insert_of_free {s : Store} {a new : Record} (h : s.contains new.kid = false)
    (ha : a ∈ s.records) : a ∈ (s.insert new).records := by
  refine mem_insert_of_ne ha fun hkid => ?_
  rw [← hkid, contains_of_mem ha] at h
  cases h

theorem kept_insert_deactivated {s : Store} {r : Record} (hr : r ∈ s.records) :
    ∀ a ∈ s.records, ∃ a' ∈ (s.insert r.deactivated).records, a'.BecameFrom a := by
  intro a ha
  by_cases hkid : a.kid = r.kid
  · exact ⟨r.deactivated, mem_insert_self s _, .inr (by rw [s.eq_of_kid_eq ha hr hkid])⟩
  · exact ⟨a, mem_insert_of_ne ha hkid, .refl a⟩

theorem contains_insert_of_ne {s : Store} {r : Record} {kid : String} (h : r.kid ≠ kid) :
    (s.insert r).contains kid = s.contains kid := by
  unfold contains
  rw [get?_insert_of_ne s r kid h]

theorem rotate_eq_ok {s s' : Store} {new : Record} {old : Option Record}
    (h : s.rotate new old = .ok s') :
    s.contains new.kid = false ∧ ((old = none ∧ s' = s.insert new) ∨
      ∃ o, old = some o ∧ o.kid ≠ new.kid ∧ s' = (s.insert o).insert new) := by
  cases old with
  | none =>
    simp only [rotate] at h
    by_cases hc : s.contains new.kid = true
    · simp [hc] at h
    · simp only [hc] at h
      cases h
      exact ⟨by simpa using hc, .inl ⟨rfl, rfl⟩⟩
  | some o =>
    simp only [rotate] at h
    by_cases ho : s.contains o.kid = true
    · by_cases hc : s.contains new.kid = true
      · simp [ho, hc] at h
      · simp only [ho, hc] at h
        cases h
        exact ⟨by simpa using hc, .inr ⟨o, rfl, fun hk => hc (hk ▸ ho), rfl⟩⟩
    · simp [ho] at h

theorem mem_of_rotate {s s' : Store} {new : Record} {old : Option Record}
    (h : s.rotate new old = .ok s') :
    new ∈ s'.records ∧ ∀ o, old = some o → o ∈ s'.records := by
  obtain ⟨-, ⟨rfl, rfl⟩ | ⟨o, rfl, hne, rfl⟩⟩ := rotate_eq_ok h
  · exact ⟨mem_insert_self s new, by simp⟩
  · refine ⟨mem_insert_self _ new, fun o' ho' => ?_⟩
    cases ho'
    exact mem_insert_of_ne (mem_insert_self s o) hne

/-- A rotation lets the store evolve if it is handed an active record, and with it at most the inactive
form of a stored record of the same algorithm. -/
theorem rotate_evolves {s s' : Store} {new : Record} {old : Option Record}
    (h : s.rotate new old = .ok s') (hnew : new.isActive = true)
    (hold : ∀ o, old = some o → ∃ r ∈ s.records, r.alg = new.alg ∧ o = r.deactivated) :
    s.EvolvesTo s' := by
  obtain ⟨hfree, ⟨rfl, rfl⟩ | ⟨o, rfl, hne, rfl⟩⟩ := rotate_eq_ok h
  · refine ⟨fun r hr => ⟨r, mem_insert_of_free hfree hr, .refl r⟩, fun alg ha => ?_⟩
    obtain ⟨r, hr, ha⟩ := ha
    exact ⟨r, mem_insert_of_free hfree hr, ha⟩
  · obtain ⟨r, hr, halg, rfl⟩ := hold o rfl
    rw [← contains_insert_of_ne hne] at hfree
    constructor
    · intro a ha
      obtain ⟨a', ha', hb⟩ := kept_insert_deactivated hr a ha
      exact ⟨a', mem_insert_of_free hfree ha', hb⟩
    · intro alg ha
      obtain ⟨a, ha, hal, hact⟩ := ha
      by_cases hkid : a.kid = r.kid
      -- the algorithm loses the record `r` and has the new one instead
      · have : a = r := s.eq_of_kid_eq ha hr hkid
        exact ⟨new, mem_insert_self _ new, by rw [← halg, ← this, hal], hnew⟩
      · exact ⟨a, mem_insert_of_free hfree (mem_insert_of_ne ha hkid), hal, hact⟩

end Store
end Keyring
