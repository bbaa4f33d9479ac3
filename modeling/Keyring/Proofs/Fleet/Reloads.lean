import Keyring.Proofs.Fleet.Soundness

/-!
Reloads that overlap. What a manager has published is what the finished reload with the greatest number
has taken, whichever order the reloads finish in and whichever of them fail.
-/
set_option autoImplicit false

namespace Keyring

open Fleet Manager

namespace Manager.Published

/-- What the reload with the greatest number has taken is published, or nothing yet. -/
def IsLatest (p : Published) (finished : List (Nat × Snapshot)) : Prop :=
  (finished = [] ∧ p.generation = 0 ∧ p.snapshot = .empty) ∨
  ((p.generation, p.snapshot) ∈ finished ∧ ∀ f ∈ finished, f.1 ≤ p.generation)

def SameSnapshot (p q : Published) : Prop := p.generation = q.generation ∧ p.snapshot = q.snapshot

theorem after_sameSnapshot (p : Published) {d : Deed} (h : d.finish? = none) :
    (p.after d).SameSnapshot p := by
  cases d with
  | installed g s => cases h
  | _ => exact ⟨rfl, rfl⟩

end Manager.Published

namespace Fleet

def finishesOf (manager : Nat) (h : List Entry) : List (Nat × Snapshot) :=
  (h.filter fun e => e.manager = manager).filterMap fun e => e.deed.finish?

theorem mem_finishesOf {m : Nat} {h : List Entry} {f : Nat × Snapshot} :
    f ∈ finishesOf m h ↔ ∃ e ∈ h, e.manager = m ∧ e.deed.finish? = some f := by
  simp [finishesOf, List.mem_filterMap, and_assoc]

section consistent

variable {h : List Entry} {m : Nat}

theorem Consistent.number_of_finish (hc : Consistent h) {e : Entry} (he : e ∈ h) {g : Nat}
    {s : Snapshot} (hf : e.deed.finish? = some (g, s)) :
    ∃ start, [start, e].Sublist h ∧ start.job = e.job ∧ start.manager = e.manager ∧
      start.deed = .numbered g := by
  obtain ⟨past, more, rfl, hfits⟩ := hc.fits he
  obtain ⟨earlier, records, setting, events, heq, -⟩ := hfits.prepared hf
  obtain ⟨start, hstart, hd, hj⟩ := entry_of_mem
    (show .numbered g ∈ deedsOf e.job past by simp [heq])
  refine ⟨start, ?_, hj, hfits.manager start hstart hj, hd⟩
  exact (List.singleton_sublist.mpr hstart).append (List.singleton_sublist.mpr List.mem_cons_self)

theorem Consistent.isLatest (hc : Consistent h) (m : Nat) :
    (publishedAfter m h).IsLatest (finishesOf m h) := by
  have hle : ∀ f ∈ finishesOf m h, f.1 ≤ (publishedAfter m h).generation := by
    intro f hf
    obtain ⟨e, he, rfl, hfin⟩ := mem_finishesOf.mp hf
    exact hc.finish_le he hfin
  rcases published_installed m h with h0 | ⟨e, he, hm, hd⟩
  · refine .inl ⟨List.eq_nil_iff_forall_not_mem.mpr fun f hf => ?_, h0⟩
    obtain ⟨e, he, rfl, hfin⟩ := mem_finishesOf.mp hf
    obtain ⟨start, hsub, -, -, hd⟩ := hc.number_of_finish he hfin
    have hone := hc.one_le_number (hsub.subset List.mem_cons_self) hd
    have hzero := hle f hf
    omega
  · exact .inr ⟨mem_finishesOf.mpr ⟨e, he, hm, by rw [hd]; rfl⟩, hle⟩

theorem Consistent.number_once (hc : Consistent h) {a b : Entry} (hs : [a, b].Sublist h)
    (hm : a.manager = b.manager) {g : Nat} (ha : a.deed = .numbered g) :
    b.deed ≠ .numbered g := by
  intro hb
  exact Nat.lt_irrefl g (hc.numbers_increase.forall_sublist hs hm g g ha hb)

theorem Consistent.start_unique (hc : Consistent h) {a b : Entry} (ha : a ∈ h) (hb : b ∈ h)
    (hm : a.manager = b.manager) {g : Nat} (hda : a.deed = .numbered g)
    (hdb : b.deed = .numbered g) : a = b := by
  rcases eq_or_sublist_of_mem ha hb with heq | hs | hs
  · exact heq
  · exact absurd hdb (hc.number_once hs hm hda)
  · exact absurd hda (hc.number_once hs hm.symm hdb)

theorem Consistent.deeds_number_once (hc : Consistent h) (job g : Nat) :
    ¬[.numbered g, .numbered g].Sublist (deedsOf job h) := by
  intro hs
  obtain ⟨es, hes, hmap, hjob⟩ := entries_of_sublist hs
  obtain ⟨a, es, rfl, ha, hmap⟩ := List.map_eq_cons_iff.mp hmap
  obtain ⟨b, es, rfl, hb, hmap⟩ := List.map_eq_cons_iff.mp hmap
  obtain rfl := List.map_eq_nil_iff.mp hmap
  have hj : a.job = b.job := (hjob a (by simp)).trans (hjob b (by simp)).symm
  exact hc.number_once hes (hc.manager_eq (hes.subset (by simp)) (hes.subset (by simp)) hj) ha hb

theorem Consistent.not_finished (hc : Consistent h) {job g : Nat} {s s' : Snapshot} {d : Deed}
    (hp : Prepared (deedsOf job h) g s) (hf : d.finish? = some (g, s')) :
    ¬[.numbered g, d].Sublist (deedsOf job h) := by
  intro hs
  obtain ⟨earlier, records, setting, events, heq, -⟩ := hp
  rw [heq] at hs
  obtain ⟨l₁, l₂, hl, h₁, h₂⟩ := List.sublist_append_iff.mp hs
  cases l₁ with
  | nil =>
    rw [List.nil_append] at hl
    subst hl
    have hd := h₂.subset (show d ∈ [.numbered g, d] by simp)
    simp only [List.mem_cons, List.not_mem_nil, or_false] at hd
    rcases hd with rfl | rfl | rfl | rfl <;> cases hf
  | cons d' l₁ =>
    obtain ⟨rfl, -⟩ := List.cons_eq_cons.mp hl
    refine hc.deeds_number_once job g ?_
    rw [heq]
    exact (List.singleton_sublist.mpr (h₁.subset List.mem_cons_self)).append
      (List.singleton_sublist.mpr List.mem_cons_self)

/-- No two reloads finish with the same number. -/
theorem Consistent.finish_ne (hc : Consistent h) {e e' : Entry} (he : e.Fits h) {g g' : Nat}
    {s s' : Snapshot} (hf : e.deed.finish? = some (g, s)) (he' : e' ∈ h)
    (hm : e'.manager = e.manager) (hf' : e'.deed.finish? = some (g', s')) : g' ≠ g := by
  intro hg
  subst hg
  obtain ⟨start', hsub, hj', hm', hd'⟩ := hc.number_of_finish he' hf'
  have hp := he.prepared hf
  obtain ⟨start, hstart, hd, hj⟩ := entry_of_mem (show .numbered g' ∈ deedsOf e.job h by
    obtain ⟨earlier, records, setting, events, heq, -⟩ := hp
    simp [heq])
  have hms := he.manager start hstart hj
  -- the number is given once, so both are ends of one job, and a job has one end at most
  obtain rfl := hc.start_unique hstart (hsub.subset List.mem_cons_self)
    (by rw [hms, hm', hm]) hd hd'
  refine hc.not_finished hp hf' ?_
  have hown := (hsub.filter fun x => x.job = e.job).map Entry.deed
  rw [← hd]
  simpa [deedsOf, hj, hj' ▸ hj] using hown

theorem Consistent.finishes_distinct (hc : Consistent h) (m : Nat) :
    ((finishesOf m h).map Prod.fst).Nodup := by
  induction h using List.reverseRecOn with
  | nil => exact List.nodup_nil
  | append_singleton past e ih =>
    have happend : finishesOf m (past ++ [e]) = finishesOf m past ++ finishesOf m [e] := by
      simp [finishesOf]
    rw [happend, List.map_append]
    refine List.nodup_append.mpr ⟨ih hc.left, ?_, ?_⟩
    · by_cases hm : e.manager = m
      · cases hf : e.deed.finish? <;> simp [finishesOf, hm, hf]
      · simp [finishesOf, hm]
    · intro g hg g' hg'
      obtain ⟨f, hf, rfl⟩ := List.mem_map.mp hg
      obtain ⟨f', hf', rfl⟩ := List.mem_map.mp hg'
      obtain ⟨e₁, he₁, hm₁, hfin₁⟩ := mem_finishesOf.mp hf
      obtain ⟨e₂, he₂, hm₂, hfin₂⟩ := mem_finishesOf.mp hf'
      cases List.mem_singleton.mp he₂
      exact hc.left.finish_ne hc.last hfin₂ he₁ (hm₁.trans hm₂.symm) hfin₁

/-- A snapshot that is installed over another one has the greater number. The reload of the other one
has started before, and the listing is made after that. -/
theorem Consistent.installed_follows (hc : Consistent h) {past after : List Entry} {e : Entry}
    (heq : h = past ++ e :: after) {g : Nat} {s : Snapshot} (hd : e.deed = .installed g s)
    (hp : 0 < (publishedAfter e.manager past).generation) :
    ∃ start₀ listing₀ opening₀ start listing opening,
      Origin past e.manager (publishedAfter e.manager past).generation
        (publishedAfter e.manager past).snapshot start₀ listing₀ opening₀ ∧
      Origin past e.manager g s start listing opening ∧ [start₀, start].Sublist past := by
  have hfits := hc past e after heq
  have hcp : Consistent past := (heq ▸ hc).left
  have hf : e.deed.finish? = some (g, s) := by rw [hd]; rfl
  obtain ⟨start, listing, opening, ho⟩ := hfits.origin hcp hf
  rcases published_installed e.manager past with ⟨h0, -⟩ | ⟨e₀, he₀, hm₀, hd₀⟩
  · omega
  rcases hcp.published_origin e.manager with ⟨h0, -⟩ | ⟨start₀, listing₀, opening₀, ho₀⟩
  · omega
  refine ⟨start₀, listing₀, opening₀, start, listing, opening, ho₀, ho, ?_⟩
  have hle : (publishedAfter e.manager past).generation ≤ g := by
    have hx := hfits.explained
    rw [hd] at hx
    exact hx
  have hne := hcp.finish_ne hfits hf he₀ hm₀ (by rw [hd₀]; rfl)
  -- the numbers are different, so that their order is that of the entries at which they are given
  have hm : start.manager = start₀.manager := ho.manager.1.trans ho₀.manager.1.symm
  have hmem₀ : start₀ ∈ past := ho₀.ordered.subset (by simp)
  have hmem : start ∈ past := ho.ordered.subset (by simp)
  rcases eq_or_sublist_of_mem hmem₀ hmem with rfl | hs | hs
  · exact absurd (Deed.numbered.inj (ho₀.numbered.symm.trans ho.numbered)) hne
  · exact hs
  · have hlt := hcp.numbers_increase.forall_sublist hs hm _ _ ho.numbered ho₀.numbered
    omega

end consistent

theorem reloading_ends : Operation.reload.action.Along (fun past _ => ∀ d ∈ past, d.finish? = none)
    (fun _ _ => True) [] := by
  refine .bind (.bind (.bind (Action.along_takeGeneration fun g => ⟨by simp, ?_⟩)))
  refine .bind (.attempt (Action.along_list fun listing => ⟨by simp [Deed.finish?], ?_⟩))
  cases listing with
  | error error => trivial
  | ok records =>
    refine .bind (.bind (.mono (openRecords_along records _ fun _ => ?_) ?_))
    · simp [Deed.finish?]
    · intro now outcome h
      obtain ⟨setting, events, rfl, -⟩ := h
      cases outcome with
      | error error => trivial
      | ok s => exact Action.along_install g s fun d hd => ⟨by simp [Deed.finish?], trivial⟩

theorem reloading_along : Operation.reload.action.Along Lawful
    (fun now outcome =>
      ∃ result, ReloadDeeds now result ∧ outcome = result.map fun _ => Answer.finished) [] := by
  refine .bind ((reload_along []).mono ?_)
  intro now outcome h
  obtain ⟨ds, rfl, hds⟩ := h
  cases outcome with
  | error error => exact ⟨_, hds, rfl⟩
  | ok _ => exact ⟨_, hds, rfl⟩

theorem ReloadDeeds.ok_iff {ds : List Deed} {result : Except KeyError Unit}
    (h : ReloadDeeds ds result) : result = .ok () ↔ ∃ d ∈ ds, d.finish?.isSome := by
  cases h with
  | unlisted g error => simp [Deed.finish?]
  | unopened g records setting events error h => simp [Deed.finish?]
  | finished g records setting events s d h hd => simp [hd]

theorem Sound.reload_done {x : Fleet} (hx : Sound x) {i m : Nat} {outcome : Except KeyError Answer}
    (hj : x.jobs[i]? = some ⟨m, .reload, .done outcome⟩) :
    ∃ result, ReloadDeeds (deedsOf i x.shared.history) result ∧
      outcome = result.map fun _ => Answer.finished :=
  (hx.follows i _ hj).along reloading_along

theorem Sound.answerable {x : Fleet} (hx : Sound x) {i : Nat} {d : Deed}
    (hd : d ∈ deedsOf i x.shared.history) (hf : d.finish?.isSome) {β : Type} (c : Call β) :
    Nonempty β := by
  obtain ⟨e, he, rfl, -⟩ := entry_of_mem hd
  obtain ⟨⟨g, s⟩, hfin⟩ := Option.isSome_iff_exists.mp hf
  obtain ⟨past, more, -, hfits⟩ := hx.consistent.fits he
  obtain ⟨earlier, records, setting, events, -⟩ := hfits.prepared hfin
  exact ⟨(c.perform setting (.fresh .empty)).1⟩

/-- A reload that has installed or discarded its snapshot has returned. -/
theorem Sound.reload_returned {x : Fleet} (hx : Sound x) {i m : Nat} {rest : Action Answer}
    (hj : x.jobs[i]? = some ⟨m, .reload, rest⟩) {d : Deed} (hd : d ∈ deedsOf i x.shared.history)
    (hf : d.finish?.isSome) : rest = .done (.ok .finished) := by
  cases rest with
  | call c next =>
    obtain ⟨answer⟩ := hx.answerable hd hf c
    have hnone := ((hx.follows i _ hj).along reloading_ends .fresh answer).1 d hd
    rw [hnone] at hf
    cases hf
  | done outcome =>
    obtain ⟨result, hds, rfl⟩ := hx.reload_done hj
    rw [hds.ok_iff.mpr ⟨d, hd, hf⟩]
    rfl

theorem Sound.advance_sameSnapshot {x : Fleet} (i : Nat) (s : Setting)
    (hd : ∀ d ∈ deedsOf i (x.move (.advance i s)).shared.history, d.finish? = none) (m : Nat) :
    ((x.move (.advance i s)).shared.published m).SameSnapshot (x.shared.published m) := by
  rcases advance_cases x i s with ⟨h, -⟩ | ⟨manager, operation, β, c, next, h⟩
  · rw [h]
    exact ⟨rfl, rfl⟩
  rw [advance_eq h] at hd ⊢
  have hentry := hd (x.shared.entry i manager s c).deed (by
    simp only [perform_history, deedsOf_append, deedsOf_single]
    simp)
  simp only [perform_published]
  split
  · rename_i hm
    rw [hm]
    exact Published.after_sameSnapshot _ hentry
  · exact ⟨rfl, rfl⟩

theorem Sound.isLatest {x : Fleet} (hx : Sound x) (m : Nat) :
    (x.shared.published m).IsLatest (finishesOf m x.shared.history) := by
  rw [hx.published]
  exact hx.consistent.isLatest m

theorem Sound.generation_le_run {x : Fleet} (hx : Sound x) (moves : List Move) (m : Nat) :
    (x.shared.published m).generation ≤ ((x.run moves).shared.published m).generation := by
  have hy := sound_run hx moves
  obtain ⟨more, heq⟩ := history_run x moves
  have hc := hy.consistent
  rw [hx.published, hy.published]
  rw [← heq] at hc ⊢
  exact hc.generation_le m

theorem Sound.reload_ok_iff {x : Fleet} (hx : Sound x) {i m : Nat} {rest : Action Answer}
    (hj : x.jobs[i]? = some ⟨m, .reload, rest⟩) :
    (∃ d ∈ deedsOf i x.shared.history, d.finish?.isSome) ↔ rest = .done (.ok .finished) := by
  constructor
  · intro h
    obtain ⟨d, hd, hf⟩ := h
    exact hx.reload_returned hj hd hf
  · intro h
    subst h
    obtain ⟨result, hds, hres⟩ := hx.reload_done hj
    cases result with
    | error error => cases hres
    | ok _ => exact hds.ok_iff.mp rfl

theorem failed_reload_sameSnapshot {x y : Fleet} (hy : Sound y) {i : Nat} {s : Setting}
    {more : List Move} (hrun : y = (x.move (.advance i s)).run more) {m : Nat} {error : KeyError}
    (hj : y.jobs[i]? = some ⟨m, .reload, .done (.error error)⟩) (m' : Nat) :
    ((x.move (.advance i s)).shared.published m').SameSnapshot (x.shared.published m') := by
  obtain ⟨rest, heq⟩ := history_run (x.move (.advance i s)) more
  refine Sound.advance_sameSnapshot i s (fun d hd => ?_) m'
  have hmem : d ∈ deedsOf i y.shared.history := by
    rw [hrun, ← heq, deedsOf_append]
    exact List.mem_append_left _ hd
  cases hf : d.finish? with
  | none => rfl
  | some f =>
    have hok := (hy.reload_ok_iff hj).mp ⟨d, hmem, by rw [hf]; rfl⟩
    cases hok

/-- A pending reload installs its snapshot unless one with a greater number has finished. -/
theorem Sound.advance_install {x : Fleet} (hx : Sound x) {i m g : Nat} {operation : Operation}
    {s : Snapshot} {next : Unit → Action Answer}
    (hj : x.jobs[i]? = some ⟨m, operation, .call (.install g s) next⟩) (setting : Setting) :
    (x.move (.advance i setting)).shared.published m =
      if ∀ f ∈ finishesOf m x.shared.history, f.1 ≤ g then
        { x.shared.published m with generation := g, snapshot := s }
      else x.shared.published m := by
  have hinstall : (x.move (.advance i setting)).shared.published m =
      ((x.shared.published m).install g s).1 := by
    rw [advance_eq hj]
    simp [Shared.perform, Shared.world, Call.perform, World.report]
  rw [hinstall]
  unfold Published.install
  by_cases hg : g < (x.shared.published m).generation
  · rw [if_pos hg, if_neg]
    intro hall
    rcases hx.isLatest m with ⟨-, h0, -⟩ | ⟨hmem, -⟩
    · omega
    · have hle := hall _ hmem
      simp only at hle
      omega
  · rw [if_neg hg, if_pos]
    intro f hf
    rcases hx.isLatest m with ⟨hnil, -, -⟩ | ⟨-, hle⟩
    · rw [hnil] at hf
      cases hf
    · have hf' := hle f hf
      omega

/-- Reloads of a manager that overlap in any way, with failures of any of them. -/
theorem reloads_publish_latest (store : Store) (moves more : List Move) (m : Nat) :
    let x := (fresh store).run moves
    let p := x.shared.published m
    let finished := finishesOf m x.shared.history
    (p.IsLatest finished ∧ (finished.map Prod.fst).Nodup) ∧
    p.generation ≤ ((x.run more).shared.published m).generation ∧
    (∀ i rest, x.jobs[i]? = some ⟨m, .reload, rest⟩ →
      ((∃ d ∈ deedsOf i x.shared.history, d.finish?.isSome) ↔ rest = .done (.ok .finished))) ∧
    (∀ i error, x.jobs[i]? = some ⟨m, .reload, .done (.error error)⟩ →
      ∀ before s after, moves = before ++ .advance i s :: after → ∀ m',
        ((((fresh store).run before).move (.advance i s)).shared.published m').SameSnapshot
          (((fresh store).run before).shared.published m')) ∧
    ∀ i operation g s next, x.jobs[i]? = some ⟨m, operation, .call (.install g s) next⟩ → ∀ setting,
      (x.move (.advance i setting)).shared.published m =
        if ∀ f ∈ finished, f.1 ≤ g then { p with generation := g, snapshot := s } else p := by
  intro x p finished
  have hx : Sound x := sound_run (sound_fresh store) moves
  have hlatest := hx.isLatest m
  have hdistinct := hx.consistent.finishes_distinct m
  refine ⟨⟨hlatest, hdistinct⟩, hx.generation_le_run more m, ?_, ?_, ?_⟩
  · intro i rest hj
    exact hx.reload_ok_iff hj
  · intro i error hj before s after hmoves m'
    have hrun : x = (((fresh store).run before).move (.advance i s)).run after := by
      show (fresh store).run moves = _
      rw [hmoves, run_append]
      rfl
    exact failed_reload_sameSnapshot hx hrun hj m'
  · intro i operation g s next hj setting
    exact hx.advance_install hj setting

/-- Three reloads take the numbers 1, 2 and 3. The third fails at the listing, and the second finishes before the
first. -/
def Sample.reloading : List Move :=
  [.start 0 .reload, .start 0 .reload, .start 0 .reload] ++ Sample.advances 0 1 ++ Sample.advances 1 1 ++
    List.replicate 2 (.advance 2 { Sample.setting with listFault := some .timeout }) ++
    Sample.advances 1 4 ++ Sample.advances 0 4

theorem second_reload_outlasts_the_others :
    let x := (fresh Sample.store).run Sample.reloading
    let finished := finishesOf 0 x.shared.history
    finished.map Prod.fst = [2, 1] ∧
      [0, 1, 2].map (fun i => (x.outcome? i).map fun outcome => outcome.toOption.isSome) =
        [some true, some true, some false] ∧
      (x.shared.published 0).generation = 2 ∧ (2, x.snapshot 0) ∈ finished := by
  intro x finished
  have hruns : finished.map Prod.fst = [2, 1] ∧
      [0, 1, 2].map (fun i => (x.outcome? i).map fun outcome => outcome.toOption.isSome) =
        [some true, some true, some false] := by decide +kernel
  obtain ⟨⟨hlatest, -⟩, -⟩ := reloads_publish_latest Sample.store Sample.reloading [] 0
  rcases hlatest with ⟨hnone, -⟩ | ⟨hmem, hgreatest⟩
  · rw [show finished = [] from hnone] at hruns
    cases hruns.1
  have htaken : (x.shared.published 0).generation ∈ finished.map Prod.fst := List.mem_map_of_mem hmem
  obtain ⟨f, hf, htwo⟩ : ∃ f ∈ finished, f.1 = 2 := List.mem_map.mp (hruns.1 ▸ List.mem_cons_self)
  have hle := hgreatest f hf
  have hgeneration : (x.shared.published 0).generation = 2 := by
    rw [hruns.1] at htaken
    rcases List.mem_pair.mp htaken with htwo' | hone
    · exact htwo'
    · rw [htwo, hone] at hle
      omega
  exact ⟨hruns.1, hruns.2, hgeneration, hgeneration ▸ hmem⟩

/-- What is published at any time reflects, from then on, the store as it was when the number of what is
published was given: the keys stored then stay, and those inactive then stay inactive. -/
theorem published_keeps_reflecting (store : Store) (moves more : List Move)
    (hedit : ∀ mv ∈ moves ++ more, mv.isEdit = false) (m : Nat)
    (hp : 0 < (((fresh store).run moves).shared.published m).generation) :
    ∃ start ∈ ((fresh store).run moves).shared.history, start.manager = m ∧
      start.deed = .numbered (((fresh store).run moves).shared.published m).generation ∧
      (((fresh store).run (moves ++ more)).snapshot m).Reflects start.store := by
  obtain ⟨hx, hev⟩ := sound_evolved_run store fun mv h => hedit mv (List.mem_append_left more h)
  obtain ⟨hg, hevy⟩ := growsTo_run hx hev fun mv h => hedit mv (List.mem_append_right moves h)
  have hy := sound_run hx more
  rw [run_append]
  generalize (fresh store).run moves = x at *
  rcases hx.consistent.published_origin m with ⟨h0, -⟩ | ⟨start, listing, opening, ho⟩
  · rw [hx.published] at hp
    omega
  have hstart : start ∈ x.shared.history := ho.ordered.subset (by simp)
  refine ⟨start, hstart, ho.manager.1, by rw [hx.published]; exact ho.numbered, ?_⟩
  obtain ⟨more', heq, -⟩ := hg.history
  have hle := hx.generation_le_run more start.manager
  rw [ho.manager.1, hy.published, hx.published] at hle
  have hreflects := hy.consistent.reflects hevy.pairwise
    (heq ▸ List.mem_append_left more' hstart) ho.numbered (ho.manager.1 ▸ hle)
  rw [ho.manager.1, ← hy.published] at hreflects
  exact hreflects

/-- What has been published may still vanish for a while. A reload may take the smaller number and list
later than one with the greater number, which then takes its place: between the two listings a rotation
has handed in its key. -/
theorem published_keys_can_vanish : ¬∀ (store : Store) (moves more : List Move),
    (∀ mv ∈ moves ++ more, mv.isEdit = false) → ∀ m kid,
    (((fresh store).run moves).snapshot m).get? kid ≠ none →
      (((fresh store).run (moves ++ more)).snapshot m).get? kid ≠ none := by
  intro h
  have hkept := h .empty
    ([.start 0 .reload, .start 0 .reload, .start 0 (.rotate .rs256)] ++ Sample.advances 0 1 ++
      Sample.advances 1 2 ++ Sample.advances 2 8 ++ Sample.advances 0 4)
    (Sample.advances 1 3) (by decide) 0 "RS256_AAAAAAAAAAAAAAAA" (by decide +kernel)
  exact hkept (by decide +kernel)

end Fleet
end Keyring
