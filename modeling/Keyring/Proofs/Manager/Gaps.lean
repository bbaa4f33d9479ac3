import Keyring.Proofs.Manager.Expiry
import Keyring.Proofs.Manager.StartUp

/-!
Making keys for algorithms that have none, by a manager that has been in use. Which algorithms have a key is
read off the snapshot in use, so that one whose key has been stored and not published seems to have none.
Main statement: the records that are there stay as they are, but for one at most, of such an algorithm.
-/
set_option autoImplicit false

namespace Keyring

namespace Store

variable {s s' : Store} {alg : Alg} {algs : List Alg} {new : Record} {old : Option Record}

theorem Grown.sameOf_or_replaced (h : s.Grown algs s') (alg : Alg) :
    SameOf alg s s' ∨ alg ∈ algs ∧ ∃ new, s.Replaced alg new none s' := by
  by_cases hadded : ∃ r ∈ s'.records, r ∉ s.records ∧ r.alg = alg
  · obtain ⟨new, hnew, hn, rfl⟩ := hadded
    obtain ⟨hmem, hactive, hnone⟩ := h.added new hnew hn
    refine .inr ⟨hmem, new, rfl, hactive, fun a ha hkid => ?_, nofun, fun _ => hnone, fun a halg => ?_⟩
    · exact hn (s'.eq_of_kid_eq (h.kept a ha) hnew hkid ▸ ha)
    · constructor
      · intro ha
        by_cases hold : a ∈ s.records
        · exact .inr (.inr ⟨hold, nofun⟩)
        · exact .inl (h.single a ha new hnew hold hn halg)
      · rintro (rfl | ⟨o, ho, -⟩ | ⟨ha, -⟩)
        · exact hnew
        · cases ho
        · exact h.kept a ha
  · refine .inl fun a halg => ⟨fun ha => ?_, h.kept a⟩
    exact Decidable.byContradiction fun hn => hadded ⟨a, ha, hn, halg⟩

theorem Grown.sameOf (h : s.Grown algs s') (ha : s.HasActive alg) : SameOf alg s s' := by
  rcases h.sameOf_or_replaced alg with hsame | ⟨-, new, hreplaced⟩
  · exact hsame
  · exact absurd ha (hreplaced.none_active rfl)

theorem Replaced.hasActive (h : s.Replaced alg new old s') : s'.HasActive alg :=
  ⟨new, h.new_mem, h.new_alg, h.new_active⟩

theorem Replaced.kept_or_old (h : s.Replaced alg new old s') {r : Record} (hr : r ∈ s.records)
    (halg : r.alg = alg) : r ∈ s'.records ∨ old = some r := by
  by_cases hold : old = some r
  · exact .inr hold
  · exact .inl ((h.mem_iff r halg).mpr (.inr (.inr ⟨hr, hold⟩)))

end Store

namespace Manager

open Manager.Action Fleet

variable {outside : Outside} {alg : Alg} {algs more : List Alg} {w w' v v' : World}

/-- The algorithm has an active record, and no active key in use. -/
def Stranded (w : World) (alg : Alg) : Prop :=
  w.published.snapshot.active? alg = none ∧ w.store.HasActive alg

theorem Current.not_stranded (h : Current outside w) (alg : Alg) : ¬ Stranded w alg := by
  rintro ⟨hnone, hactive⟩
  have hsome := h.active_iff.mpr hactive
  rw [hnone] at hsome
  cases hsome

/-- What has been done when keys were made for some algorithms: to each nothing, or one key has been added,
which has replaced another one at most if the algorithm was stranded. One record at most has not stayed. -/
structure Filled (algs : List Alg) (w v : World) : Prop where
  each : ∀ alg, Store.SameOf alg w.store v.store ∨ alg ∈ algs ∧ ∃ new old,
    w.store.Replaced alg new old v.store ∧ (old = none ∨ Stranded w alg)
  once : ∀ r ∈ w.store.records, ∀ r' ∈ w.store.records,
    r ∉ v.store.records → r' ∉ v.store.records → r = r'

theorem filled_of_eq (algs : List Alg) (h : v.store = w.store) : Filled algs w v :=
  ⟨fun _ => .inl fun _ _ => by rw [h], fun _ hr _ _ hn => absurd (h ▸ hr) hn⟩

theorem Filled.mono (h : Filled algs w v) (hsub : ∀ alg ∈ algs, alg ∈ more) : Filled more w v :=
  ⟨fun alg => (h.each alg).imp_right fun ⟨hmem, hreplaced⟩ => ⟨hsub alg hmem, hreplaced⟩, h.once⟩

theorem filled_of_handedIn {new : Record} (h : w.store.HandedIn alg new v.store)
    (hnone : w.published.snapshot.active? alg = none) : Filled (alg :: more) w v := by
  constructor
  case each =>
    intro other
    by_cases heq : other = alg
    · subst heq
      obtain ⟨old, hreplaced⟩ := h.replaced
      refine .inr ⟨List.mem_cons_self, new, old, hreplaced, ?_⟩
      cases old with
      | none => exact .inl rfl
      | some o =>
        have ho := hreplaced.newest o rfl
        exact .inr ⟨hnone, o, ho.mem, ho.alg_eq, ho.active⟩
    · exact .inl (h.sameOf heq)
  case once =>
    obtain ⟨old, hhandover, -⟩ := h.handover
    have hold {r : Record} (hr : r ∈ w.store.records) (hn : r ∉ v.store.records) : old = some r :=
      Decidable.byContradiction fun hne => hn ((hhandover.mem_iff r).mpr (.inr (.inr ⟨hr, hne⟩)))
    exact fun r hr r' hr' hn hn' => Option.some.inj ((hold hr hn).symm.trans (hold hr' hn'))

theorem Rotated.evolves {outcome : Except KeyError String} (h : Rotated outside alg w outcome v) :
    w.store.EvolvesTo v.store := by
  rcases h.store_cases with hs | ⟨new, hs⟩
  · exact hs ▸ .refl _
  · exact hs.evolves

theorem Rotated.filled {outcome : Except KeyError String} (h : Rotated outside alg w outcome v)
    (hnone : w.published.snapshot.active? alg = none) : Filled (alg :: more) w v := by
  rcases h.store_cases with hs | ⟨new, hs⟩
  · exact filled_of_eq _ hs
  · exact filled_of_handedIn hs hnone

/-- After a rotation that has gone well no algorithm is stranded, so that from then on the store grows. -/
theorem Rotated.filled_grown {kid : String} (h : Rotated outside alg w (.ok kid) w')
    (hnone : w.published.snapshot.active? alg = none) (hg : w'.store.Grown more v.store) :
    Filled (alg :: more) w v := by
  have hfilled : Filled (alg :: more) w w' := h.filled hnone
  refine ⟨fun other => ?_, fun r hr r' hr' hn hn' => ?_⟩
  · rcases hfilled.each other with hsame | ⟨hmem, new, old, hreplaced, hwhy⟩
    · rcases hg.sameOf_or_replaced other with hsame' | ⟨hmem, new, hreplaced⟩
      · exact .inl fun a halg => (hsame' a halg).trans (hsame a halg)
      · refine .inr ⟨List.mem_cons_of_mem _ hmem, new, none, ?_, .inl rfl⟩
        exact hreplaced.after_sameOf h.evolves hsame
    · exact .inr ⟨hmem, new, old, hreplaced.of_sameOf (hg.sameOf hreplaced.hasActive), hwhy⟩
  · exact hfilled.once r hr r' hr' (fun hmid => hn (hg.kept r hmid)) fun hmid => hn' (hg.kept r' hmid)

def FirstMade (outside : Outside) (alg : Alg) (more : List Alg) (w v : World) : Prop :=
  (∃ outcome, Rotated outside alg w outcome v) ∨
    ∃ kid u, Rotated outside alg w (.ok kid) u ∧ u.store.Grown more v.store

theorem FirstMade.filled (h : FirstMade outside alg more w v)
    (hnone : w.published.snapshot.active? alg = none) : Filled (alg :: more) w v := by
  rcases h with ⟨outcome, hrotated⟩ | ⟨kid, u, hrotated, hgrown⟩
  · exact hrotated.filled hnone
  · exact hrotated.filled_grown hnone hgrown

theorem initKeys_first_runs (hnone : w.published.snapshot.active? alg = none) (hw : w.published.Settled) :
    (initKeys (alg :: more)).Runs outside (FirstMade outside alg more w) w fun outcome w' =>
      FirstMade outside alg more w w' ∧ ∀ created, outcome = .ok created →
        ∃ kid u, Rotated outside alg w (.ok kid) u ∧ u.store.Grown more w'.store := by
  refine .bind (runs_snapshot (.inl ⟨.error default, .refused default rfl rfl⟩) ?_)
  simp only [hnone, Option.isSome_none, if_false, Bool.false_eq_true]
  refine .bind ((rotate_runs alg w).mono (fun _ hv => .inl hv) fun outcome w₁ hw₁ => ?_)
  rcases outcome with error | kid
  · exact ⟨.inl ⟨_, hw₁⟩, nofun⟩
  refine .bind ((initKeys_runs more (hw₁.current hw)).mono (fun v hv => .inr ⟨kid, w₁, hw₁, hv⟩) ?_)
  intro outcome v hv
  have hgrown : ∃ kid u, Rotated outside alg w (.ok kid) u ∧ u.store.Grown more v.store :=
    ⟨kid, w₁, hw₁, hv.grown⟩
  rcases outcome with error | created
  · exact ⟨.inr hgrown, nofun⟩
  · exact ⟨.inr hgrown, .inr hgrown, fun _ _ => hgrown⟩

theorem initKeys_fills (algs : List Alg) (hw : w.published.Settled) :
    (initKeys algs).Runs outside (Filled algs w) w fun _ w' => Filled algs w w' := by
  induction algs with
  | nil => exact ⟨filled_of_eq _ rfl, filled_of_eq _ rfl⟩
  | cons alg more ih =>
    cases hkey : w.published.snapshot.active? alg with
    | some key =>
      have hmore {v : World} (hv : Filled more w v) : Filled (alg :: more) w v :=
        hv.mono fun _ hmem => List.mem_cons_of_mem alg hmem
      refine .bind (runs_snapshot (filled_of_eq _ rfl) ?_)
      simp only [hkey, Option.isSome_some, if_true]
      exact ih.mono (fun _ => hmore) fun _ _ => hmore
    | none =>
      exact (initKeys_first_runs hkey hw).mono (fun _ hv => hv.filled hkey) fun _ _ hv => hv.1.filled hkey

theorem Rotated.retires {kid : String} (h : Rotated outside alg w (.ok kid) w')
    (ha : w.store.HasActive alg) :
    ∃ r ∈ w.store.records, r.alg = alg ∧ r.isActive = true ∧ r.deactivated ∈ w'.store.records := by
  cases h with
  | published new s hs _ _ =>
    obtain ⟨old, hreplaced⟩ := hs.replaced
    cases old with
    | none => exact absurd ha (hreplaced.none_active rfl)
    | some o =>
      have ho := hreplaced.newest o rfl
      exact ⟨o, ho.mem, ho.alg_eq, ho.active, (hreplaced.deactivated_mem ho).2⟩

theorem Stranded.retires {created : List Alg} (h : Stranded w alg) (hw : w.published.Settled)
    (hrun : (initKeys (alg :: more)).run outside w = (.ok created, w')) :
    ∃ r ∈ w.store.records, r.alg = alg ∧ r.isActive = true ∧ r.deactivated ∈ w'.store.records := by
  have hend := (@initKeys_first_runs outside alg more w h.1 hw).ends
  rw [hrun] at hend
  obtain ⟨kid, u, hrotated, hgrown⟩ := hend.2 created rfl
  obtain ⟨r, hr, halg, hactive, hd⟩ := hrotated.retires h.2
  exact ⟨r, hr, halg, hactive, hgrown.kept _ hd⟩

theorem Filled.kept (h : Filled algs w v) {r : Record} (hr : r ∈ w.store.records) :
    r ∈ v.store.records ∨ r.deactivated ∈ v.store.records ∧ r.alg ∈ algs ∧ Stranded w r.alg := by
  rcases h.each r.alg with hsame | ⟨hmem, new, old, hreplaced, hwhy⟩
  · exact .inl ((hsame r rfl).mpr hr)
  · refine (hreplaced.kept_or_old hr rfl).imp_right fun hold => ?_
    subst hold
    have hd := (hreplaced.mem_iff r.deactivated rfl).mpr (.inr (.inl ⟨r, rfl, rfl⟩))
    exact ⟨hd, hmem, hwhy.resolve_left nofun⟩

theorem Filled.grown (h : Filled algs w v) (hn : ∀ alg ∈ algs, ¬ Stranded w alg) :
    w.store.Grown algs v.store := by
  have hadded {r : Record} (hr : r ∈ v.store.records) (hnew : r ∉ w.store.records) :
      r.alg ∈ algs ∧ ∃ new, w.store.Replaced r.alg new none v.store ∧ r = new := by
    rcases h.each r.alg with hsame | ⟨hmem, new, old, hreplaced, hwhy⟩
    · exact absurd ((hsame r rfl).mp hr) hnew
    obtain rfl := hwhy.resolve_right (hn _ hmem)
    rcases (hreplaced.mem_iff r rfl).mp hr with heq | ⟨o, ho, -⟩ | ⟨hold, -⟩
    · exact ⟨hmem, new, hreplaced, heq⟩
    · cases ho
    · exact absurd hold hnew
  constructor
  case kept => exact fun r hr => (h.kept hr).resolve_right fun ⟨_, hmem, hs⟩ => hn _ hmem hs
  case added =>
    intro r hr hnew
    obtain ⟨hmem, new, hreplaced, heq⟩ := hadded hr hnew
    exact ⟨hmem, heq ▸ hreplaced.new_active, hreplaced.none_active rfl⟩
  case single =>
    intro r hr r' hr' hnew hnew' halg
    obtain ⟨-, new, hreplaced, rfl⟩ := hadded hr hnew
    rcases (hreplaced.mem_iff r' halg.symm).mp hr' with heq | ⟨o, ho, -⟩ | ⟨hold, -⟩
    · exact heq.symm
    · cases ho
    · exact absurd hold hnew'

/-- Keys are made in the place of no other ones, and for algorithms without an active record only, unless an
algorithm is stranded. One at most is made for each, and at most one in all is replaced, which is the newest
active one of a stranded algorithm. If such an algorithm comes first and all goes well, one is replaced. There
is no such algorithm after a reload or a rotation that has gone well. -/
theorem gaps_are_filled_unless_stranded (outside : Outside) (store : Store) (algs : List Alg) (v v' : World)
    (hv : Proceeds outside (World.fresh store) v) (hi : (initKeys algs).Passes outside v v') :
    ((∀ alg ∈ algs, ¬ Stranded v alg) → v.store.Grown algs v'.store) ∧
    (∀ alg, Store.SameOf alg v.store v'.store ∨ alg ∈ algs ∧ ∃ new old,
      v.store.Replaced alg new old v'.store ∧ (old = none ∨ Stranded v alg)) ∧
    (∀ r ∈ v.store.records, r ∉ v'.store.records →
      r.deactivated ∈ v'.store.records ∧ r.alg ∈ algs ∧ Stranded v r.alg) ∧
    (∀ r ∈ v.store.records, ∀ r' ∈ v.store.records,
      r ∉ v'.store.records → r' ∉ v'.store.records → r = r') ∧
    (∀ alg more created u, Stranded v alg → (initKeys (alg :: more)).run outside v = (.ok created, u) →
      ∃ r ∈ v.store.records, r.alg = alg ∧ r.isActive = true ∧ r.deactivated ∈ u.store.records) ∧
    (∀ u, reload.run outside v = (.ok (), u) → ∀ alg, ¬ Stranded u alg) ∧
    ∀ alg kid u, (rotate alg).run outside v = (.ok kid, u) → ∀ other, ¬ Stranded u other := by
  have hsettled := (invariant_settled outside).proceeds Published.settled_fresh hv
  have hfilled := (initKeys_fills algs hsettled).passes hi
  refine ⟨hfilled.grown, hfilled.each, fun r hr hn => (hfilled.kept hr).resolve_left hn, hfilled.once,
    fun alg more created u hs hrun => hs.retires hsettled hrun, fun u hrun => ?_, ?_⟩
  · have hend := (@reload_runs outside v).ends.1
    rw [hrun] at hend
    exact (hend.current hsettled).not_stranded
  · intro alg kid u hrun
    have hend := (@rotate_runs outside alg v).ends
    rw [hrun] at hend
    exact (hend.current hsettled).not_stranded

/-- The second call of two on an empty store. -/
theorem gap_of_first_is_filled_once :
    let v := (Operation.reload.action.run (failingFrom 100) (World.fresh .empty)).2
    let filled := ((Operation.initKeys [.rs256, .rs256]).action.run (failingFrom 100) v).2
    let v' := ((initKeys [.rs256]).run (failingFrom 100) filled).2
    filled.store.size = 1 ∧ v'.store.size = 1 ∧ ∀ r ∈ filled.store.records, r ∈ v'.store.records := by
  intro v filled v'
  have hreached : Proceeds (failingFrom 100) (World.fresh .empty) filled :=
    .operation (.operation .refl .reload (Action.passes_end _ _)) (.initKeys [.rs256, .rs256])
      (Action.passes_end _ _)
  have hgrown := (gaps_are_filled_unless_stranded (failingFrom 100) .empty [.rs256] filled v' hreached
    (Action.passes_end _ filled)).1
  have hpublished : (filled.published.snapshot.active? .rs256).isSome := by decide +kernel
  refine ⟨by decide +kernel, by decide +kernel, (hgrown fun alg hmem hs => ?_).kept⟩
  rw [List.mem_singleton.mp hmem, Stranded] at hs
  rw [hs.1] at hpublished
  cases hpublished

/-- Where a key has been stored and not published, another try puts it out of use. -/
theorem gap_is_filled_twice : ¬ ∀ (outside : Outside) (store : Store) (algs : List Alg) (v v' : World),
    Proceeds outside (World.fresh store) v → (initKeys algs).Passes outside v v' →
      ∀ r ∈ v.store.records, r ∈ v'.store.records := by
  intro h
  let stops : Outside := fun moment =>
    { failingFrom 100 moment with isInjected := fun p => moment < 15 && p = .beforeReload }
  let loaded := (Operation.reload.action.run stops (World.fresh .empty)).2
  let v := ((Operation.initKeys [.rs256]).action.run stops loaded).2
  have hreached : Proceeds stops (World.fresh .empty) v :=
    .operation (.operation .refl .reload (Action.passes_end _ _)) (.initKeys [.rs256]) (Action.passes_end _ _)
  have hretired : ((initKeys [.rs256]).run stops v).1.toOption = some [.rs256] ∧
      ∃ r ∈ v.store.records, r ∉ ((initKeys [.rs256]).run stops v).2.store.records := by decide +kernel
  obtain ⟨-, r, hr, hn⟩ := hretired
  exact hn (h stops .empty [.rs256] v _ hreached (Action.passes_end _ v) r hr)

end Manager
end Keyring
