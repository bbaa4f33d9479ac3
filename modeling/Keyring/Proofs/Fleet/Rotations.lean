import Keyring.Proofs.Fleet.Soundness

set_option autoImplicit false

namespace Keyring

open Fleet Manager

namespace Fleet

theorem rotation_along (alg : Alg) : (Operation.rotate alg).action.Along Lawful
    (fun now outcome => ∀ kid, outcome = .ok (.kid kid) →
      ∃ ds event, now = ds ++ [.reported [event]] ∧ RotationDeeds alg ds kid) [] := by
  refine .bind ((rotate_along alg []).mono ?_)
  intro now outcome h
  cases outcome with
  | error error =>
    intro kid hk
    cases hk
  | ok kid =>
    intro kid' hk
    cases hk
    obtain ⟨ds, event, heq, hr⟩ := h kid rfl
    exact ⟨ds, event, heq, hr⟩

theorem Sound.rotation_deeds {x : Fleet} (hx : Sound x) {i m : Nat} {alg : Alg} {kid : String}
    (hj : x.jobs[i]? = some ⟨m, .rotate alg, .done (.ok (.kid kid))⟩) :
    ∃ ds event, deedsOf i x.shared.history = ds ++ [.reported [event]] ∧ RotationDeeds alg ds kid :=
  (hx.follows i _ hj).along (rotation_along alg) kid rfl

theorem ReloadDeeds.handedIn?_eq_nil {ds : List Deed} {outcome : Except KeyError Unit}
    (h : ReloadDeeds ds outcome) : ds.filterMap Deed.handedIn? = [] := by
  cases h with
  | unlisted g error => rfl
  | unopened g records setting events error h => rfl
  | finished g records setting events s d h hd =>
    cases d with
    | handedIn new old outcome => cases hd
    | _ => rfl

theorem RotationDeeds.handedIn_once {alg : Alg} {ds : List Deed} {kid : String}
    (h : RotationDeeds alg ds kid) :
    ∃ new old g s d, ds.filterMap Deed.handedIn? = [(new, old)] ∧ new.kid = kid ∧ new.alg = alg ∧
      d.finish? = some (g, s) ∧ [.handedIn new old (.ok ()), .numbered g, d].Sublist ds := by
  obtain ⟨before, between, ds, new, old, hb, halg, hr⟩ := h
  have hreload := hr.handedIn?_eq_nil
  have hquiet : ∀ l : List Deed, (∀ d ∈ l, d ∈ before ++ between) →
      l.filterMap Deed.handedIn? = [] := by
    intro l hl
    exact List.filterMap_eq_nil_iff.mpr fun d hd => hb d (hl d hd)
  have hbefore := hquiet before fun d hd => List.mem_append_left between hd
  have hbetween := hquiet between fun d hd => List.mem_append_right before hd
  cases hr with
  | finished g records setting events s d h hd =>
    refine ⟨new, old, g, s, d, ?_, rfl, halg, hd, ?_⟩
    · rw [List.filterMap_append, List.filterMap_cons, List.filterMap_append]
      rw [hreload, hbefore, hbetween]
      rfl
    · refine (List.Sublist.cons_cons _ ?_).trans (List.sublist_append_right before _)
      refine List.Sublist.trans ?_ (List.sublist_append_right between _)
      exact .cons_cons _ (.cons _ (.cons _ (.cons _ (.refl _))))

/-- The entries of a rotation that has gone well: the handing in, and the number and the end of its own
reload. -/
theorem Sound.rotation_entries {x : Fleet} (hx : Sound x) {i m : Nat} {alg : Alg} {kid : String}
    (hj : x.jobs[i]? = some ⟨m, .rotate alg, .done (.ok (.kid kid))⟩) :
    ∃ new old handed start fin g s,
      (deedsOf i x.shared.history).filterMap Deed.handedIn? = [(new, old)] ∧
      new.kid = kid ∧ new.alg = alg ∧ [handed, start, fin].Sublist x.shared.history ∧
      handed.deed = .handedIn new old (.ok ()) ∧ start.deed = .numbered g ∧
      fin.deed.finish? = some (g, s) ∧ start.manager = m ∧ fin.manager = m := by
  obtain ⟨ds, event, hdeeds, hr⟩ := hx.rotation_deeds hj
  obtain ⟨new, old, g, s, d, honce, hkid, halg, hd, hsub⟩ := hr.handedIn_once
  rw [hdeeds, List.filterMap_append, honce]
  have hsub' : [.handedIn new old (.ok ()), .numbered g, d].Sublist
      (deedsOf i x.shared.history) := by
    rw [hdeeds]
    exact hsub.trans (List.sublist_append_left ds _)
  obtain ⟨handed, start, fin, hes, ⟨hdh, hds, hdf⟩, hown⟩ := entries_of_three hsub'
  have hm : ∀ e ∈ [handed, start, fin], e.manager = m := by
    intro e he
    exact hx.manager_eq (hes.subset he) (by rw [hown e he, hj])
  have hms := hm start (by simp)
  have hmf := hm fin (by simp)
  exact ⟨new, old, handed, start, fin, g, s, rfl, hkid, halg, hes, hdh, hds, hdf ▸ hd, hms, hmf⟩

theorem rotation_stays_published (store : Store) (moves more : List Move)
    (hedit : ∀ mv ∈ moves ++ more, mv.isEdit = false) (i m : Nat) (alg : Alg) (kid : String)
    (hjob : ((fresh store).run moves).jobs[i]? = some ⟨m, .rotate alg, .done (.ok (.kid kid))⟩) :
    ∃ new old,
      (deedsOf i ((fresh store).run moves).shared.history).filterMap Deed.handedIn? =
        [(new, old)] ∧
      new.kid = kid ∧ new.alg = alg ∧
      (∃ key, (((fresh store).run (moves ++ more)).snapshot m).get? kid = some key ∧
        key.record.BecameFrom new) ∧
      ∀ o, old = some o → ∃ key,
        (((fresh store).run (moves ++ more)).snapshot m).get? o.kid = some key ∧
        key.record = o ∧ key.isActive = false := by
  obtain ⟨hx, hev⟩ := sound_evolved_run store fun mv h => hedit mv (List.mem_append_left more h)
  obtain ⟨hgrows, hevy⟩ := growsTo_run hx hev (fun mv h => hedit mv (List.mem_append_right moves h))
  have hy := sound_run hx more
  rw [run_append]
  generalize (fresh store).run moves = x at *
  obtain ⟨new, old, handed, start, fin, g, s, honce, hkid, halg, hsub, hdh, hds, hdf, hms, hmf⟩ :=
    hx.rotation_entries hjob
  obtain ⟨more', heq, -⟩ := hgrows.history
  have hsub' : [handed, start, fin].Sublist (x.run more).shared.history := by
    rw [heq]
    exact hsub.trans (List.sublist_append_left _ more')
  -- what is published reflects the store as it was when the records had been handed in
  have hreflects : ((x.run more).snapshot m).Reflects handed.store := by
    have h := hy.consistent.reflects_of_finish hevy.pairwise (hsub'.subset (by simp))
      (hsub'.subset (by simp)) (hmf.trans hms.symm) hds hdf
    rw [hms, ← hy.published] at h
    exact h.of_evolvesTo
      (hevy.pairwise.forall_sublist ((List.sublist_append_left [handed, start] [fin]).trans hsub'))
  obtain ⟨past, after, -, hfits⟩ := hx.consistent.fits (hsub.subset List.mem_cons_self)
  have hstored := hfits.explained
  have hlawful := hfits.lawful
  rw [hdh] at hstored hlawful
  refine ⟨new, old, honce, hkid, halg, ?_, ?_⟩
  · rw [← hkid]
    exact hreflects.get new hstored.1
  · intro o ho
    obtain ⟨key, hkey, hb⟩ := hreflects.get o (hstored.2 o ho)
    obtain ⟨records, -, r, -, -, rfl⟩ := hlawful.2 o ho
    have hr := hb.eq_of_inactive rfl
    exact ⟨key, hkey, hr, by rw [CachedKey.isActive, hr]; rfl⟩

def Job.rotated? : Job → Option (Nat × Alg × String)
  | ⟨manager, .rotate alg, .done (.ok (.kid kid))⟩ => some (manager, alg, kid)
  | _ => none

theorem Job.eq_of_rotated? {o : Option Job} {m : Nat} {alg : Alg} {kid : String}
    (h : o.bind Job.rotated? = some (m, alg, kid)) :
    o = some ⟨m, .rotate alg, .done (.ok (.kid kid))⟩ := by
  obtain ⟨job, rfl, hj⟩ := Option.bind_eq_some_iff.mp h
  unfold Job.rotated? at hj
  split at hj
  · cases hj
    rfl
  · cases hj

/-- A rotation whose reload is discarded, because a later one has finished, while an earlier one is
still under way and finishes last. -/
theorem rotation_overtaken_stays_published :
    let moves := [.start 0 .reload, .start 0 (.rotate .rs256), .start 0 .reload] ++
      Sample.advances 0 2 ++ Sample.advances 1 11 ++ Sample.advances 2 5 ++ Sample.advances 1 5
    let kid := "RS256_AAAAAAAAAAAAAAAA"
    ∃ new old,
      (deedsOf 1 ((fresh Sample.store).run moves).shared.history).filterMap Deed.handedIn? =
        [(new, old)] ∧
      new.kid = kid ∧ new.alg = .rs256 ∧
      (∃ key,
        (((fresh Sample.store).run (moves ++ Sample.advances 0 3)).snapshot 0).get? kid =
          some key ∧
        key.record.BecameFrom new) ∧
      ∀ o, old = some o → ∃ key,
        (((fresh Sample.store).run (moves ++ Sample.advances 0 3)).snapshot 0).get? o.kid =
          some key ∧
        key.record = o ∧ key.isActive = false :=
  rotation_stays_published Sample.store _ _ (by decide) 1 0 .rs256 _
    (Job.eq_of_rotated? (by decide +kernel))

end Fleet
end Keyring
