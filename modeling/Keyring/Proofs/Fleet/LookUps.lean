import Keyring.Proofs.Fleet.Soundness

set_option autoImplicit false

namespace Keyring

open Fleet Manager

namespace Fleet

/-- A look-up has missed, and the reload that it has done itself has failed. -/
def ReloadFailed (find? : Snapshot → Option CachedKey) (ds : List Deed) : Prop :=
  ∃ s event reload error more, ds = [.read s, .reported [event]] ++ reload ++ more ∧
    find? s = none ∧ ReloadDeeds reload (.error error)

theorem LookUpDeeds.outcome {find? : Snapshot → Option CachedKey} {missing : KeyError}
    {ds : List Deed} {result : Except KeyError CachedKey} (h : LookUpDeeds find? missing ds result) :
    (∃ s key, .read s ∈ ds ∧ find? s = some key ∧ result = .ok key) ∨
    (result = .error missing ∧ (ReloadFailed find? ds ∨ ∃ g taken d s, d.finish? = some (g, taken) ∧
      [.numbered g, d, .read s].Sublist ds ∧ find? s = none)) := by
  cases h with
  | hit s key event hs => exact .inl ⟨s, key, by simp, hs, rfl⟩
  | reloaded s s' event reload hs hr =>
    cases hs' : find? s' with
    | some key => exact .inl ⟨s', key, by simp, hs', by simp [lastLook, hs']⟩
    | none =>
      refine .inr ⟨by simp [lastLook, hs'], .inr ?_⟩
      cases hr with
      | finished g records setting events taken d ho hd =>
        refine ⟨g, taken, d, s', hd, ?_, hs'⟩
        exact .cons _ (.cons _ (.cons_cons _ (.cons _ (.cons _ (.cons _ (.refl _))))))
  | unreloaded s s' event event' reload error hs hr =>
    cases hs' : find? s' with
    | some key => exact .inl ⟨s', key, by simp, hs', by simp [lastLook, hs']⟩
    | none => exact .inr ⟨by simp [lastLook, hs'], .inl ⟨s, event, reload, error, _, rfl, hs, hr⟩⟩

theorem ask_within {α : Type} (c : Call α) : (Action.ask c).Within 1 := fun _ => trivial

theorem list_within : Action.list.Within 1 := fun _ => trivial

theorem reload_within : reload.Within 5 := by
  have hbegin : beginReload.Within 2 :=
    (ask_within .takeGeneration).bind 1 fun g => list_within.attempt.bind 0 fun listing => trivial
  refine hbegin.bind 3 fun ticket => ?_
  obtain ⟨g, listing⟩ := ticket
  cases listing with
  | error error => trivial
  | ok records =>
    have hopen : (openRecords records).Within 2 :=
      (ask_within .observe).bind 1 fun setting => (ask_within (.report _)).bind 0 fun _ => trivial
    exact hopen.bind 1 fun s => ask_within (.install g s)

theorem reloadOnMiss_within : reloadOnMiss.Within 6 := by
  refine reload_within.attempt.bind 1 fun outcome => ?_
  cases outcome with
  | ok _ => trivial
  | error error => exact ask_within (.report _)

theorem lookUp_within (find? : Snapshot → Option CachedKey) (hit miss : Event) (missing : KeyError) :
    (lookUp find? hit miss missing).Within 9 := by
  refine (ask_within .snapshot).bind 8 fun s => ?_
  cases find? s with
  | some key =>
    exact (ask_within (.report _)).bind 7 fun _ => trivial
  | none =>
    refine (ask_within (.report _)).bind 7 fun _ => reloadOnMiss_within.bind 1 fun _ => ?_
    refine (ask_within .snapshot).bind 0 fun s' => ?_
    cases find? s' <;> trivial

theorem key_along {find? : Snapshot → Option CachedKey} {hit miss : Event} {missing : KeyError} :
    (do return .key (← lookUp find? hit miss missing) : Action Answer).Along Lawful
      (fun now outcome =>
        ∃ result, LookUpDeeds find? missing now result ∧ outcome = result.map Answer.key) [] := by
  refine .bind ((lookUp_along find? hit miss missing []).mono ?_)
  intro now outcome h
  obtain ⟨ds, rfl, hds⟩ := h
  cases outcome with
  | error error => exact ⟨_, hds, rfl⟩
  | ok key => exact ⟨_, hds, rfl⟩

/-- The key is what its record is opened to, under a setting that a job of the manager has observed. -/
def OpenedBy (h : List Entry) (manager : Nat) (key : CachedKey) : Prop :=
  ∃ e ∈ h, e.manager = manager ∧ ∃ setting, e.deed = .observed setting ∧
    CachedKey.ofRecord setting.encryptor key.record = .ok key

theorem Sound.known_of_read {y : Fleet} (hy : Sound y) {i : Nat} {job : Job}
    (hj : y.jobs[i]? = some job) {s : Snapshot} (hr : .read s ∈ deedsOf i y.shared.history)
    {key : CachedKey} (hk : key ∈ s.keys) :
    OpenedBy y.shared.history job.manager key ∧
      ∃ e ∈ y.shared.history, key.record ∈ e.store.records := by
  obtain ⟨look, hlook, hd, rfl⟩ := entry_of_mem hr
  have hm := hy.manager_eq hlook hj
  obtain ⟨past, more, heq, hfits⟩ := hy.consistent.fits hlook
  have hs := hfits.explained
  rw [hd] at hs
  rw [show s = _ from hs] at hk
  have hc : Consistent past := (heq ▸ hy.consistent).left
  rcases hc.published_origin look.manager with ⟨-, h0⟩ | ⟨start, listing, opening, ho⟩
  · rw [h0] at hk
    cases hk
  obtain ⟨records, setting, events, -, hdo, hperm, hopen⟩ := ho.opened
  obtain ⟨hrecord, hkey⟩ := Snapshot.opened_of_mem_keys hopen hk
  have hmem : ∀ e ∈ [start, listing, opening], e ∈ y.shared.history := by
    intro e he
    rw [heq]
    exact List.mem_append_left _ (ho.ordered.subset he)
  exact ⟨⟨opening, hmem opening (by simp), ho.manager.2.trans hm, setting, hdo, hkey⟩,
    listing, hmem listing (by simp), hperm.mem_iff.mp hrecord⟩

theorem lookUp_finds {x y : Fleet} (hy : Sound y) (hev : Evolved y) (hg : x.GrowsTo y) {i : Nat}
    {job : Job} (hj : y.jobs[i]? = some job) (hnew : ∀ e ∈ x.shared.history, e.job ≠ i)
    {find? : Snapshot → Option CachedKey} {missing : KeyError} {result : Except KeyError CachedKey}
    (hfind : ∀ s, s.Reflects x.shared.store → ∃ key, find? s = some key)
    (hds : LookUpDeeds find? missing (deedsOf i y.shared.history) result) :
    (∃ s key, .read s ∈ deedsOf i y.shared.history ∧ find? s = some key ∧ result = .ok key) ∨
    (result = .error missing ∧ ReloadFailed find? (deedsOf i y.shared.history)) := by
  rcases hds.outcome with hfound | ⟨herr, hfailed | ⟨g, taken, d, s, hd, hsub, hnone⟩⟩
  · exact .inl hfound
  · exact .inr ⟨herr, hfailed⟩
  -- its own reload has finished, so that the last look is at a snapshot that has the key
  exfalso
  obtain ⟨start, fin, look, hes, ⟨hds, hdf, hdl⟩, hown⟩ := entries_of_three hsub
  have hm : ∀ e ∈ [start, fin, look], e.manager = job.manager :=
    fun e he => hy.manager_eq (hes.subset he) (by rw [hown e he, hj])
  obtain ⟨past, rest, heq, hpast⟩ := split_of_sublist (l := [start, fin]) hes
  have hc := hy.consistent
  have hpair := hev.pairwise
  rw [heq] at hc hpair
  have hreflects := hc.left.reflects_of_finish (List.pairwise_append.mp hpair).1
    (hpast.subset (by simp)) (hpast.subset (by simp))
    ((hm fin (by simp)).trans (hm start (by simp)).symm) hds (hdf ▸ hd)
  have hlook := (hc past look rest rfl).explained
  rw [hdl, hm look (by simp), ← hm start (by simp)] at hlook
  rw [← show s = _ from hlook] at hreflects
  obtain ⟨more, hmore, hevolves⟩ := hg.history
  have hstart : start ∈ x.shared.history ++ more := hmore ▸ hes.subset (by simp)
  rcases List.mem_append.mp hstart with h | h
  · exact hnew start h (hown start (by simp))
  · obtain ⟨key, hkey⟩ := hfind s (hreflects.of_evolvesTo (hevolves start h))
    rw [hkey] at hnone
    cases hnone

/-- The look-up comes to its end if it is advanced nine times, and then it has found a key as described,
unless it has missed and the reload that it has done itself has failed. -/
structure Finds (y : Fleet) (i advances : Nat) (find? : Snapshot → Option CachedKey)
    (missing : KeyError) (good : CachedKey → Prop) : Prop where
  ends : 9 ≤ advances → ∃ outcome, y.outcome? i = some outcome
  outcome : ∀ outcome, y.outcome? i = some outcome → (∃ key, outcome = .ok (.key key) ∧ good key) ∨
    (outcome = .error missing ∧ ReloadFailed find? (deedsOf i y.shared.history))

theorem started_run {x : Fleet} (hx : Sound x) (hev : Evolved x) (m : Nat) (operation : Operation)
    {more : List Move} (hmore : ∀ mv ∈ more, mv.isEdit = false) {y : Fleet}
    (hy : y = (x.move (.start m operation)).run more) :
    Sound y ∧ Evolved y ∧ x.GrowsTo y ∧ ∃ rest, y.jobs[x.jobs.length]? = some ⟨m, operation, rest⟩ ∧
      ∀ n, operation.action.Within n →
        rest.Within (n - more.countP (Move.isAdvanceOf x.jobs.length)) := by
  subst hy
  obtain ⟨hg, hev'⟩ := growsTo_move hx hev (show (Move.start m operation).isEdit = false from rfl)
  have hx' := sound_move hx (.start m operation)
  obtain ⟨hg', hevy⟩ := growsTo_run hx' hev' hmore
  have hstart : (x.move (.start m operation)).jobs[x.jobs.length]? =
      some ⟨m, operation, operation.action⟩ := by
    simp [move]
  exact ⟨sound_run hx' more, hevy, hg.trans hg', job_run hstart more⟩

theorem started_finds {x : Fleet} (hx : Sound x) (hev : Evolved x) (m : Nat) {operation : Operation}
    {find? : Snapshot → Option CachedKey} {hit miss : Event} {missing : KeyError}
    (hop : operation.action = do return .key (← lookUp find? hit miss missing)) {more : List Move}
    (hmore : ∀ mv ∈ more, mv.isEdit = false) {y : Fleet}
    (hrun : y = (x.move (.start m operation)).run more)
    {good : CachedKey → Prop} (hfind : ∀ s, s.Reflects x.shared.store → ∃ key, find? s = some key)
    (hgood : ∀ s key, .read s ∈ deedsOf x.jobs.length y.shared.history →
      find? s = some key → good key) :
    Finds y x.jobs.length (more.countP (Move.isAdvanceOf x.jobs.length)) find? missing good := by
  obtain ⟨hy, hevy, hg, rest, hj, hwithin⟩ := started_run hx hev m operation hmore hrun
  constructor
  · intro hn
    have hrest := hwithin 9 (by
      rw [hop]
      exact (lookUp_within find? hit miss missing).bind 0 fun _ => trivial)
    rw [Nat.sub_eq_zero_of_le hn] at hrest
    obtain ⟨outcome, rfl⟩ := hrest.done
    exact ⟨outcome, by simp [outcome?, hj]⟩
  · intro outcome hout
    obtain rfl : rest = .done outcome := by
      unfold outcome? at hout
      rw [hj] at hout
      cases rest with
      | call c next => cases hout
      | done outcome' =>
        cases hout
        rfl
    obtain ⟨result, hds, rfl⟩ := (hy.follows _ _ hj).along (by rw [hop]; exact key_along)
    have hnew : ∀ e ∈ x.shared.history, e.job ≠ x.jobs.length := by
      intro e he
      obtain ⟨job, hjob, -⟩ := hx.owned e he
      exact Nat.ne_of_lt (List.getElem?_eq_some_iff.mp hjob).1
    rcases lookUp_finds hy hevy hg hj hnew hfind hds with ⟨s, key, hr, hs, rfl⟩ | ⟨rfl, hfailed⟩
    · exact .inl ⟨key, rfl, hgood s key hr hs⟩
    · exact .inr ⟨rfl, hfailed⟩

/-- A record that has been stored at some time is the stored one with its id, up to whether it is
active. -/
theorem sameKey_of_stored {x y : Fleet} (hev : Evolved x) (hg : x.GrowsTo y) {e : Entry}
    (he : e ∈ y.shared.history) {a r : Record} (ha : a ∈ e.store.records)
    (hr : r ∈ x.shared.store.records) (hk : a.kid = r.kid) : a.SameKey r := by
  obtain ⟨more, heq, hmore⟩ := hg.history
  rw [heq] at he
  rcases List.mem_append.mp he with he | he
  · exact ((hev.current e he).becameFrom ha hr hk).deactivated_eq.symm
  · exact ((hmore e he).becameFrom hr ha hk.symm).deactivated_eq

/-- A look-up finds what has been in the store when it started: the key of a stored record, and a key of
an algorithm that has an active record. -/
theorem look_ups_find (store : Store) (moves more : List Move)
    (hedit : ∀ mv ∈ moves ++ more, mv.isEdit = false) (m : Nat) :
    let x := (fresh store).run moves
    let i := x.jobs.length
    let after := fun operation => (x.move (.start m operation)).run more
    (∀ r ∈ x.shared.store.records,
      Finds (after (.keyById r.kid)) i (more.countP (Move.isAdvanceOf i)) (fun s => s.get? r.kid)
        (.keyNotFound r.kid) (fun key => key.record.SameKey r ∧
          OpenedBy (after (.keyById r.kid)).shared.history m key)) ∧
    ∀ alg, x.shared.store.HasActive alg →
      Finds (after (.activeKey alg)) i (more.countP (Move.isAdvanceOf i)) (fun s => s.active? alg)
        (.noActiveKey alg) (fun key => key.alg = alg) := by
  intro x i after
  obtain ⟨hx, hev⟩ := sound_evolved_run store fun mv h => hedit mv (List.mem_append_left more h)
  have hmore := fun mv h => hedit mv (List.mem_append_right moves h)
  constructor
  · intro r hr
    refine started_finds hx hev m rfl hmore rfl ?_ ?_
    · intro s hs
      obtain ⟨key, hkey, -⟩ := hs.get r hr
      exact ⟨key, hkey⟩
    · intro s key hread hkey
      obtain ⟨hmem, hkid⟩ := Snapshot.mem_of_get? hkey
      obtain ⟨hy, -, hg, rest, hj, -⟩ := started_run hx hev m (.keyById r.kid) hmore rfl
      obtain ⟨hopened, e, he, hstored⟩ := hy.known_of_read hj hread hmem
      exact ⟨sameKey_of_stored hev hg he hstored hr hkid, hopened⟩
  · intro alg halg
    refine started_finds hx hev m rfl hmore rfl ?_ ?_
    · intro s hs
      exact Option.isSome_iff_exists.mp (hs.active alg halg)
    · intro s key hread hkey
      exact Snapshot.alg_of_active? hkey

/-- A look-up whose own reload publishes the record that it looks for. -/
theorem look_up_finds_first :
    let y := ((fresh Sample.store).move (.start 0 (.keyById "RS256_first"))).run
      (Sample.advances 0 9)
    ∃ key, y.outcome? 0 = some (.ok (.key key)) ∧ key.record.SameKey Sample.record := by
  intro y
  have hmem : Sample.record ∈ Sample.store.records := Store.mem_insert_self .empty Sample.record
  have h := (look_ups_find Sample.store [] (Sample.advances 0 9) (by decide) 0).1 Sample.record hmem
  have hfound : (y.outcome? 0).any (fun outcome => outcome.toBool) = true := by decide +kernel
  obtain ⟨outcome, hout⟩ := Option.isSome_iff_exists.mp (Option.isSome_of_any hfound)
  rcases h.outcome outcome hout with ⟨key, rfl, hkey, -⟩ | ⟨rfl, -⟩
  · exact ⟨key, hout, hkey⟩
  · rw [hout] at hfound
    cases hfound

end Fleet
end Keyring
