import Keyring.Proofs.Manager.OneActive

/-!
Rotations of an algorithm with any number of active records, as rotations that overlap leave behind. A
rotation puts one of them out of use, the newest. Main statement: the others stay active, and of these and
the new one the newest is in use.
-/
set_option autoImplicit false

namespace Keyring

theorem Store.Handover.active_iff_of_many {s s' : Store} {alg : Alg} {new a : Record} {old : Option Record}
    (h : s.Handover alg new old s') : a ∈ s'.records ∧ a.alg = alg ∧ a.isActive = true ↔
      a = new ∨ ((a ∈ s.records ∧ a.alg = alg ∧ a.isActive = true) ∧ old ≠ some a) := by
  rw [h.mem_iff]
  constructor
  · rintro ⟨rfl | ⟨o, -, rfl⟩ | ⟨ha, hne⟩, halg, hactive⟩
    · exact .inl rfl
    · cases hactive
    · exact .inr ⟨⟨ha, halg, hactive⟩, hne⟩
  · rintro (rfl | ⟨⟨ha, halg, hactive⟩, hne⟩)
    · exact ⟨.inl rfl, h.new_alg, h.new_active⟩
    · exact ⟨.inr (.inr ⟨ha, hne⟩), halg, hactive⟩

/-- Among records of distinct ids, one is the newest active one exactly when all other active ones precede
it. -/
theorem Record.IsNewestActive.eq_iff {alg : Alg} {s : Store} {newest r : Record}
    (h : Record.IsNewestActive alg s.records newest)
    (hr : r ∈ s.records ∧ r.alg = alg ∧ r.isActive = true) :
    newest = r ↔ ∀ a, a ∈ s.records ∧ a.alg = alg ∧ a.isActive = true → a ≠ r → a.Precedes r := by
  constructor
  · rintro rfl a ⟨ha, halg, hactive⟩ hne
    by_contra hp
    have hkid := Record.kid_eq_of_not_precedes hp (h.last a ha halg hactive)
    exact hne (s.eq_of_kid_eq ha hr.1 hkid)
  · intro hall
    by_contra hne
    have hp := hall newest ⟨h.mem, h.alg_eq, h.active⟩ hne
    exact h.last r hr.1 hr.2.1 hr.2.2 hp

namespace Manager

open Manager.Action Fleet

variable {outside : Outside} {alg : Alg} {w w' : World}

/-- How a rotation that has gone well leaves the active records of its algorithm, and which of them is in
use. -/
structure Succeeded (alg : Alg) (new : Record) (old : Option Record) (w w' : World) : Prop where
  handover : w.store.Handover alg new old w'.store
  newest : ∀ o, old = some o → Record.IsNewestActive alg w.store.records o
  inUse : ∃ key, w'.published.snapshot.active? alg = some key ∧
    Record.IsNewestActive alg w'.store.records key.record

theorem Rotated.succeeded {kid : String} (h : Rotated outside alg w (.ok kid) w') (hp : w.published.Settled) :
    ∃ new old, new.kid = kid ∧ Succeeded alg new old w w' := by
  have htaken := h.taken hp
  cases h with
  | published new s hs _ _ =>
    obtain ⟨old, hhandover, hnewest⟩ := hs.handover
    have hactive : w'.store.HasActive alg :=
      ⟨new, (hhandover.mem_iff new).mpr (.inl rfl), hhandover.new_alg, hhandover.new_active⟩
    obtain ⟨moment, records, events, -, -, hperm, htook⟩ := id htaken
    obtain ⟨key, hkey⟩ := Option.isSome_iff_exists.mp
      ((Snapshot.reflects_of_listing htook hperm).active alg hactive)
    exact ⟨new, old, rfl, hhandover, hnewest, key, hkey, htaken.isNewestActive hkey⟩

namespace Succeeded

variable {new : Record} {old : Option Record} (h : Succeeded alg new old w w')
include h

theorem active_iff {r : Record} : r ∈ w'.store.records ∧ r.alg = alg ∧ r.isActive = true ↔
    r = new ∨ ((r ∈ w.store.records ∧ r.alg = alg ∧ r.isActive = true) ∧ old ≠ some r) :=
  h.handover.active_iff_of_many

theorem only_active_iff :
    (∀ r, r ∈ w'.store.records ∧ r.alg = alg ∧ r.isActive = true ↔ r = new) ↔
      ∀ r, r ∈ w.store.records ∧ r.alg = alg ∧ r.isActive = true → old = some r := by
  constructor
  · intro honly r hr
    by_contra hne
    have heq := (honly r).mp (h.active_iff.mpr (.inr ⟨hr, hne⟩))
    exact h.handover.new_kid r hr.1 (heq ▸ rfl)
  · refine fun hold r => h.active_iff.trans ⟨?_, .inl⟩
    rintro (rfl | ⟨hr, hne⟩)
    · rfl
    · exact absurd (hold r hr) hne

theorem inUse_iff :
    (∃ key, w'.published.snapshot.active? alg = some key ∧ key.record = new) ↔
      ∀ r, r ∈ w.store.records ∧ r.alg = alg ∧ r.isActive = true → old ≠ some r → r.Precedes new := by
  obtain ⟨key, hkey, hnewest⟩ := h.inUse
  have hnew : new ∈ w'.store.records ∧ new.alg = alg ∧ new.isActive = true := h.active_iff.mpr (.inl rfl)
  have hfirst : (∃ k, w'.published.snapshot.active? alg = some k ∧ k.record = new) ↔ key.record = new := by
    simp [hkey]
  rw [hfirst, hnewest.eq_iff hnew]
  constructor
  · intro hall r hr hne
    refine hall r (h.active_iff.mpr (.inr ⟨hr, hne⟩)) ?_
    rintro rfl
    exact h.handover.new_kid r hr.1 rfl
  · intro hall r hr hne
    obtain hr | ⟨hr, hold⟩ := h.active_iff.mp hr
    · exact absurd hr hne
    · exact hall r hr hold

end Succeeded

/-- A rotation that has gone well has put the newest active record of its algorithm out of use and no other
one. The new record is active, and the only one if there has been one at most. In use is the newest of all
that are active then, which is the new one if the others that are left come before it. -/
theorem rotation_retires_newest_only (store : Store) (moves : List Move) (m : Nat) (outside : Outside)
    (alg : Alg) (kid : String) (w' : World)
    (h : (rotate alg).run outside (((fresh store).run moves).shared.world m) = (.ok kid, w')) :
    ∃ new old, new.kid = kid ∧ Succeeded alg new old (((fresh store).run moves).shared.world m) w' ∧
      ((∀ r, r ∈ w'.store.records ∧ r.alg = alg ∧ r.isActive = true ↔ r = new) ↔
        ∀ r, r ∈ ((fresh store).run moves).shared.store.records ∧ r.alg = alg ∧ r.isActive = true →
          old = some r) ∧
      ((∃ key, w'.published.snapshot.active? alg = some key ∧ key.record = new) ↔
        ∀ r, r ∈ ((fresh store).run moves).shared.store.records ∧ r.alg = alg ∧ r.isActive = true →
          old ≠ some r → r.Precedes new) := by
  have hsound := sound_run (sound_fresh store) moves
  generalize (fresh store).run moves = x at *
  have hsettled : (x.shared.world m).published.Settled := by
    have hpublished : (x.shared.world m).published = x.shared.published m := rfl
    rw [hpublished, hsound.published]
    exact hsound.consistent.generation_lt m
  have hend := (@rotate_runs outside alg (x.shared.world m)).ends
  rw [h] at hend
  obtain ⟨new, old, hkid, hsucceeded⟩ := hend.succeeded hsettled
  exact ⟨new, old, hkid, hsucceeded, hsucceeded.only_active_iff, hsucceeded.inUse_iff⟩

/-- Two active records of an algorithm, both made later than the clock says. -/
def Sample.twoActive : Store :=
  (Store.empty.insert { Sample.record with kid := "RS256_2096", createdAt := ⟨4000000000, 0⟩ }).insert
    { Sample.record with kid := "RS256_2099", createdAt := ⟨4100000000, 0⟩ }

/-- A rotation over two active records retires the later one, so that the earlier one is in use after it. -/
theorem rotation_of_two_retires_newest_only :
    let w := (fresh Sample.twoActive).shared.world 0
    let w' := ((rotate .rs256).run (fun _ => Sample.setting) w).2
    ∃ new old, new.kid = "RS256_AAAAAAAAAAAAAAAA" ∧ Succeeded .rs256 new old w w' ∧
      (old.map Record.kid = some "RS256_2099" ∧
        (w'.published.snapshot.active? .rs256).map CachedKey.kid = some "RS256_2096") := by
  intro w w'
  have hkid : ((rotate .rs256).run (fun _ => Sample.setting) w).1.toOption = some "RS256_AAAAAAAAAAAAAAAA" := by
    decide +kernel
  have hinUse : (w'.published.snapshot.active? .rs256).map CachedKey.kid = some "RS256_2096" := by
    decide +kernel
  have hretired : ∀ r ∈ w'.store.records, r.isActive = true → r.kid ≠ "RS256_2099" := by decide +kernel
  have hrecords : ∃ r ∈ w.store.records, (r.alg = .rs256 ∧ r.isActive = true) ∧ r.kid = "RS256_2099" := by
    decide +kernel
  cases hrun : (rotate .rs256).run (fun _ => Sample.setting) w with
  | mk outcome v =>
  obtain rfl : w' = v := congrArg Prod.snd hrun
  rw [hrun] at hkid
  rcases outcome with error | kid
  · cases hkid
  cases hkid
  obtain ⟨new, old, hnew, hsucceeded, -⟩ :=
    rotation_retires_newest_only Sample.twoActive [] 0 (fun _ => Sample.setting) .rs256 _ w' hrun
  refine ⟨new, old, hnew, hsucceeded, ?_, hinUse⟩
  obtain ⟨r, hr, hactive, hrkid⟩ := hrecords
  have hold : old = some r := by
    by_contra hne
    exact hretired r (hsucceeded.active_iff.mpr (.inr ⟨⟨hr, hactive⟩, hne⟩)).1 hactive.2 hrkid
  rw [hold, Option.map_some, hrkid]

/-- So the new key need neither be the only active one nor be in use, although all records can be opened. -/
theorem rotations_leave_others_active_and_in_use : ¬ ∀ (outside : Outside) (store : Store) (alg : Alg)
    (kid : String) (w' : World),
    (∀ r ∈ store.records, ∀ moment, ∃ key, CachedKey.ofRecord (outside moment).encryptor r = .ok key) →
    (rotate alg).run outside (World.fresh store) = (.ok kid, w') →
      (∀ r ∈ w'.store.records, r.alg = alg → r.isActive = true → r.kid = kid) ∧
        (w'.published.snapshot.active? alg).map CachedKey.kid = some kid := by
  intro h
  let run := (rotate .rs256).run (fun _ => Sample.setting) (World.fresh Sample.twoActive)
  have hkid : run.1.toOption = some "RS256_AAAAAAAAAAAAAAAA" := by decide +kernel
  have hinUse : (run.2.published.snapshot.active? .rs256).map CachedKey.kid = some "RS256_2096" := by
    decide +kernel
  have hopen : ∀ r ∈ Sample.twoActive.records, (CachedKey.ofRecord .plain r).isOk = true := by decide +kernel
  have hopens (r : Record) (hr : r ∈ Sample.twoActive.records) : ∃ key, CachedKey.ofRecord .plain r = .ok key := by
    have hr := hopen r hr
    cases hkey : CachedKey.ofRecord .plain r with
    | error error =>
      rw [hkey] at hr
      cases hr
    | ok key => exact ⟨key, rfl⟩
  cases hrun : run with
  | mk outcome w' =>
  rw [hrun] at hkid hinUse
  rcases outcome with error | kid
  · cases hkid
  cases hkid
  have hclaimed := (h _ Sample.twoActive .rs256 _ w' (fun r hr _ => hopens r hr) hrun).2
  rw [hinUse] at hclaimed
  exact absurd hclaimed (by decide)

end Manager
end Keyring
