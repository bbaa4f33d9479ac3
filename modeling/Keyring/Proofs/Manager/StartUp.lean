import Keyring.Proofs.Manager.OneActive
import Keyring.Proofs.Store.Sweep

set_option autoImplicit false

namespace Keyring

namespace Store

/-- Active records have been added, one at most for each of the algorithms and only where there was none. -/
structure Grown (algs : List Alg) (s s' : Store) : Prop where
  kept : ∀ r ∈ s.records, r ∈ s'.records
  added : ∀ r ∈ s'.records, r ∉ s.records → r.alg ∈ algs ∧ r.isActive = true ∧ ¬ s.HasActive r.alg
  single : ∀ r ∈ s'.records, ∀ r' ∈ s'.records, r ∉ s.records → r' ∉ s.records → r.alg = r'.alg → r = r'

namespace Grown

variable {algs algs' : List Alg} {s s' s'' : Store}

theorem refl (algs : List Alg) (s : Store) : s.Grown algs s :=
  ⟨fun _ h => h, fun _ h hn => absurd h hn, fun _ h _ _ hn => absurd h hn⟩

theorem of_eq (h : s' = s) : s.Grown algs s' := h ▸ refl algs s

theorem mono (h : s.Grown algs s') (hsub : ∀ alg ∈ algs, alg ∈ algs') : s.Grown algs' s' :=
  ⟨h.kept, fun r hr hn => ⟨hsub _ (h.added r hr hn).1, (h.added r hr hn).2⟩, h.single⟩

theorem hasActive (h : s.Grown algs s') {alg : Alg} (ha : s.HasActive alg) : s'.HasActive alg := by
  obtain ⟨r, hr, halg⟩ := ha
  exact ⟨r, h.kept r hr, halg⟩

theorem trans (h : s.Grown algs s') (h' : s'.Grown algs s'') : s.Grown algs s'' := by
  have hfirst {r r' : Record} (hr : r ∈ s'.records) (hnr : r ∉ s.records) (hr' : r' ∈ s''.records)
      (hnr' : r' ∉ s'.records) : r.alg ≠ r'.alg := by
    obtain ⟨-, hactive, -⟩ := h.added r hr hnr
    exact fun halg => (h'.added r' hr' hnr').2.2 ⟨r, hr, halg, hactive⟩
  constructor
  case kept => exact fun r hr => h'.kept r (h.kept r hr)
  case added =>
    intro r hr hn
    by_cases hmid : r ∈ s'.records
    · exact h.added r hmid hn
    · obtain ⟨halg, hactive, hnone⟩ := h'.added r hr hmid
      exact ⟨halg, hactive, fun ha => hnone (h.hasActive ha)⟩
  case single =>
    intro r hr r' hr' hn hn' halg
    by_cases hmid : r ∈ s'.records <;> by_cases hmid' : r' ∈ s'.records
    · exact h.single r hmid r' hmid' hn hn' halg
    · exact absurd halg (hfirst hmid hn hr' hmid')
    · exact absurd halg.symm (hfirst hmid' hn' hr hmid)
    · exact h'.single r hr r' hr' hmid hmid' halg

theorem only_active (h : s.Grown algs s') {r a : Record} (hr : r ∈ s'.records) (hn : r ∉ s.records) :
    a ∈ s'.records ∧ a.alg = r.alg ∧ a.isActive = true ↔ a = r := by
  obtain ⟨-, hactive, hnone⟩ := h.added r hr hn
  constructor
  · rintro ⟨ha, halg, haactive⟩
    refine h.single a ha r hr (fun hold => hnone ⟨a, hold, halg, haactive⟩) hn halg
  · rintro rfl
    exact ⟨hr, rfl, hactive⟩

end Grown

theorem HandedIn.grown {s s' : Store} {alg : Alg} {new : Record} (h : s.HandedIn alg new s')
    (ha : ¬ s.HasActive alg) : s.Grown [alg] s' := by
  obtain ⟨old, h, -⟩ := h.handover
  have hold : old = none := by
    cases old with
    | none => rfl
    | some o => exact absurd ⟨o, h.old_active o rfl⟩ ha
  have hmem (a : Record) : a ∈ s'.records ↔ a = new ∨ a ∈ s.records := by
    rw [h.mem_iff a, hold]
    simp
  have hnew {r : Record} (hr : r ∈ s'.records) (hn : r ∉ s.records) : r = new :=
    ((hmem r).mp hr).resolve_right hn
  refine ⟨fun r hr => (hmem r).mpr (.inr hr), fun r hr hn => ?_, fun r hr r' hr' hn hn' _ => ?_⟩
  · rw [hnew hr hn, h.new_alg]
    exact ⟨List.mem_singleton_self alg, h.new_active, ha⟩
  · rw [hnew hr hn, hnew hr' hn']

end Store

namespace Manager

open Manager.Action

variable {outside : Outside} {alg : Alg} {algs : List Alg} {w w' : World}

theorem Rotated.grown {outcome : Except KeyError String} (h : Rotated outside alg w outcome w')
    (ha : ¬ w.store.HasActive alg) : w.store.Grown [alg] w'.store := by
  rcases h.store_cases with hs | ⟨new, hs⟩
  · exact .of_eq hs
  · exact hs.grown ha

/-- What is published is a snapshot of the store as it is, and gives way to the next one. -/
structure Current (outside : Outside) (w : World) : Prop where
  settled : w.published.Settled
  taken : ∃ v v', TakenBetween outside v v' w.store w.published.snapshot

theorem Current.active_iff (h : Current outside w) :
    (w.published.snapshot.active? alg).isSome ↔ w.store.HasActive alg := by
  obtain ⟨v, v', htaken⟩ := h.taken
  constructor
  · intro hsome
    obtain ⟨key, hkey⟩ := Option.isSome_iff_exists.mp hsome
    have hnewest := htaken.isNewestActive hkey
    exact ⟨key.record, hnewest.mem, hnewest.alg_eq, hnewest.active⟩
  · obtain ⟨moment, records, events, -, -, hperm, hs⟩ := htaken
    exact (Snapshot.reflects_of_listing hs hperm).active alg

theorem Current.of_untouched (h : Current outside w) (hw : w.Untouched w') : Current outside w' := by
  refine ⟨hw.published ▸ h.settled, ?_⟩
  rw [hw.published, hw.store]
  exact h.taken

theorem Reloaded.current (h : Reloaded outside w (.ok ()) w') (hw : w.published.Settled) : Current outside w' := by
  refine ⟨(invariant_settled outside).reloaded hw h, w, w', ?_⟩
  rw [h.store]
  exact h.taken hw

theorem Rotated.current {kid : String} (h : Rotated outside alg w (.ok kid) w') (hw : w.published.Settled) :
    Current outside w' :=
  ⟨(invariant_settled outside).rotated hw h, w, w', h.taken hw⟩

theorem Rotated.hasActive {kid : String} (h : Rotated outside alg w (.ok kid) w') : w'.store.HasActive alg := by
  cases h with
  | published new s hs _ _ =>
    obtain ⟨old, h, -⟩ := hs.handover
    exact ⟨new, (h.mem_iff new).mpr (.inl rfl), h.new_alg, h.new_active⟩

/-- What a start leaves behind: a store that has grown, and if all went well, an active key of each
algorithm. -/
structure Started (outside : Outside) (algs : List Alg) (w : World) (outcome : Except KeyError (List Alg))
    (w' : World) : Prop where
  grown : w.store.Grown algs w'.store
  completed : ∀ created, outcome = .ok created → Current outside w' ∧ ∀ alg ∈ algs, w'.store.HasActive alg

theorem Started.failed (h : w.store.Grown algs w'.store) (error : KeyError) :
    Started outside algs w (.error error) w' := ⟨h, nofun⟩

theorem initKeys_runs (algs : List Alg) (h : Current outside w) :
    (initKeys algs).Runs outside (fun v => w.store.Grown algs v.store) w (Started outside algs w) := by
  induction algs generalizing w with
  | nil => exact ⟨.refl _ _, .refl _ _, fun _ _ => ⟨h, nofun⟩⟩
  | cons alg more ih =>
    have hmore (alg' : Alg) (hmem : alg' ∈ more) : alg' ∈ alg :: more := List.mem_cons_of_mem alg hmem
    have hone (alg' : Alg) (hmem : alg' ∈ [alg]) : alg' ∈ alg :: more := by
      rw [List.mem_singleton] at hmem
      exact hmem ▸ List.mem_cons_self
    -- in both cases the first algorithm has an active record when the others are turned to
    have hall {v v' : World} (ha : v.store.HasActive alg) (hg : v.store.Grown more v'.store)
        (hactive : ∀ alg' ∈ more, v'.store.HasActive alg') : ∀ alg' ∈ alg :: more, v'.store.HasActive alg' := by
      intro alg' hmem
      rcases List.mem_cons.mp hmem with rfl | hmem
      · exact hg.hasActive ha
      · exact hactive alg' hmem
    refine .bind (runs_snapshot (.refl _ _) ?_)
    by_cases hsome : (w.published.snapshot.active? alg).isSome
    · simp only [hsome, if_true]
      refine (ih h).mono (fun v hv => hv.mono hmore) fun outcome v hv => ⟨hv.grown.mono hmore, fun created hok => ?_⟩
      obtain ⟨hcurrent, hactive⟩ := hv.completed created hok
      exact ⟨hcurrent, hall (h.active_iff.mp hsome) hv.grown hactive⟩
    · have hnone : ¬ w.store.HasActive alg := fun ha => hsome (h.active_iff.mpr ha)
      simp only [hsome, if_false, Bool.false_eq_true]
      refine .bind ((rotate_runs alg w).mono (fun v ⟨_, hv⟩ => (hv.grown hnone).mono hone) fun outcome w₁ hw₁ => ?_)
      have hgrown := (hw₁.grown hnone).mono hone
      rcases outcome with error | kid
      · exact .failed hgrown error
      refine .bind ((ih (hw₁.current h.settled)).mono (fun v hv => hgrown.trans (hv.mono hmore)) ?_)
      intro outcome v hv
      have hgrown' := hgrown.trans (hv.grown.mono hmore)
      rcases outcome with error | created
      · exact .failed hgrown' error
      obtain ⟨hcurrent, hactive⟩ := hv.completed created rfl
      exact ⟨hgrown', hgrown', fun _ _ => ⟨hcurrent, hall hw₁.hasActive hv.grown hactive⟩⟩

theorem Action.Runs.withPolicy {α : Type} {policy : Policy} {inv : World → Prop} {a : Action α}
    {expected : Except KeyError α → World → Prop}
    (h : a.Runs (fun moment => { outside moment with policy := policy }) inv w expected) :
    (a.withPolicy policy).Runs outside inv w expected := by
  induction a generalizing w with
  | done outcome => exact h
  | call c next ih =>
    cases c with
    | observe => exact ⟨h.1, ih _ h.2⟩
    | _ => exact ⟨h.1, ih _ h.2⟩

def Outside.under (policy : Policy) (outside : Outside) : Outside :=
  fun moment => { outside moment with policy := policy }

theorem startWith_runs (config : Config) (w : World) (hw : w.published.Settled) :
    (startWith config).Runs outside (fun v => w.store.Grown config.algorithms v.store) w
      (Started (Outside.under config.rotationPolicy outside) config.algorithms w) := by
  refine Runs.withPolicy (.bind (runs_done (.refl _ _) ?_))
  rcases config.validate with error | _
  · exact .failed (.refl _ _) error
  refine .bind ((reload_runs w).mono (fun v ⟨_, hv⟩ => .of_eq hv.store) ?_)
  rintro outcome w₁ ⟨hw₁, -⟩
  rcases outcome with error | _
  · exact .failed (.of_eq hw₁.store) error
  refine .bind ((initKeys_runs config.algorithms (hw₁.current hw)).mono (fun v hv => hw₁.store ▸ hv) ?_)
  intro outcome w₂ hw₂
  have hgrown : w.store.Grown config.algorithms w₂.store := hw₁.store ▸ hw₂.grown
  rcases outcome with error | created
  · exact .failed hgrown error
  obtain ⟨hcurrent, hactive⟩ := hw₂.completed created rfl
  cases hempty : created.isEmpty with
  | true =>
    simp only [hempty, if_true]
    exact ⟨hgrown, hgrown, fun _ _ => ⟨hcurrent, hactive⟩⟩
  | false =>
    simp only [hempty, Bool.false_eq_true, if_false]
    refine .bind (runs_report (fun v hv => hv.store ▸ hgrown) ⟨hgrown, hgrown, fun _ _ => ?_⟩)
    exact ⟨hcurrent.of_untouched (.report _ _), hactive⟩

end Manager
end Keyring
