import Keyring.Proofs.Fleet.Rotations

/-!
Records outlast any run. Whatever the managers of a store do, and in whatever order their calls come, a
record that is stored stays, at most it becomes inactive for good, and an algorithm keeps an active one.
A rotation that has been reported to have gone well has its record in the store.
-/
set_option autoImplicit false

namespace Keyring

open Fleet Manager

namespace Snapshot

theorem noneRotated_elect (k : CachedKey) (o : Option CachedKey) : NoneRotated (elect k o).2 := by
  intro kid
  cases o with
  | none => exact List.not_mem_nil
  | some other =>
    simp only [elect]
    split <;> simp

theorem noneRotated_add (s : Snapshot) (k : CachedKey) : NoneRotated (s.add k).2 := by
  unfold add
  split
  · exact noneRotated_elect k _
  · exact fun _ => List.not_mem_nil

theorem noneRotated_extend (e : Encryptor) (s : Snapshot) (rs : List Record) :
    NoneRotated (s.extend e rs).2 := by
  induction rs generalizing s with
  | nil => exact fun _ => List.not_mem_nil
  | cons r rs ih =>
    unfold extend
    cases CachedKey.ofRecord e r with
    | error error => exact fun _ => List.not_mem_nil
    | ok k => exact fun kid hk => (List.mem_append.mp hk).elim (s.noneRotated_add k kid) (ih _ kid)

end Snapshot

namespace Fleet

/-- Whether a rotation is reported to have gone well only after its record has been handed in. -/
def Honest (past : List Deed) : Deed → Prop
  | .reported events => ∀ kid, .rotated kid ∈ events →
      ∃ new old, .handedIn new old (.ok ()) ∈ past ∧ new.kid = kid
  | _ => True

theorem honest_of_noneRotated {past : List Deed} {events : List Event} (h : NoneRotated events) :
    Honest past (.reported events) := fun kid hk => absurd hk (h kid)

theorem honest_reload : Always Honest reload := by
  refine fun past => .bind (.bind (Action.along_takeGeneration fun g => ⟨trivial, ?_⟩))
  refine .bind (.attempt (Action.along_list fun listing => ⟨trivial, ?_⟩))
  cases listing with
  | error error => trivial
  | ok records =>
    refine .bind (.bind (.mono (openRecords_along records _ fun setting => ⟨trivial, ?_⟩) ?_))
    · exact honest_of_noneRotated (Snapshot.noneRotated_extend _ _ records)
    · intro now outcome _
      cases outcome with
      | error error => trivial
      | ok s => exact Action.along_install g s fun d hd => ⟨by rcases hd with rfl | rfl <;> trivial, trivial⟩

theorem honest_of_onlyObserves {α : Type} {a : Action α} (h : a.OnlyObserves) : Always Honest a := by
  refine fun past => ((h past).of_allowed fun now d hd => ?_).mono fun _ _ _ => trivial
  obtain ⟨setting, rfl⟩ := hd
  trivial

theorem makeRecord_onlyObserves (alg : Alg) (ttl : Duration) (key : EncryptedKey) :
    (makeRecord alg ttl key).OnlyObserves := by
  refine .bind .observe fun setting => ?_
  cases setting.now.add? ttl <;> exact .done _

theorem honest_rotateUnreported (alg : Alg) : Always Honest (rotateUnreported alg) := by
  refine (honest_of_onlyObserves grantedTtl_onlyObserves).bind fun ttl => ?_
  refine Always.bind (fun past => ?_) fun records => ?_
  · exact Action.along_list fun _ => ⟨trivial, trivial⟩
  refine (honest_of_onlyObserves (makeKey_onlyObserves alg)).bind fun key => ?_
  refine (honest_of_onlyObserves (makeRecord_onlyObserves alg ttl key)).bind fun new => ?_
  refine (honest_of_onlyObserves (failPoint_onlyObserves _ _)).bind fun _ => ?_
  refine Always.bind (fun past => ?_) fun _ => ?_
  · exact Action.along_rotateStore _ _ fun _ => ⟨trivial, trivial⟩
  refine (honest_of_onlyObserves (failPoint_onlyObserves _ _)).bind fun _ => ?_
  exact honest_reload.bind fun _ => always_done _

theorem honest_rotate (alg : Alg) : Always Honest (rotate alg) := by
  intro past
  -- that the record has been handed in is read off the lawful paths of the same action
  have hboth := (honest_rotateUnreported alg past).and (rotateUnreported_along alg past)
  refine .bind (.attempt ((hboth.of_allowed fun _ _ h => h.1).mono fun now outcome ⟨_, hnow⟩ => ?_))
  cases outcome with
  | error error =>
    refine .bind (Action.along_report _ ⟨honest_of_noneRotated ?_, trivial⟩)
    intro kid hk
    cases List.mem_singleton.mp hk
  | ok kid =>
    obtain ⟨ds, rfl, hr⟩ := hnow kid rfl
    refine .bind (Action.along_report _ ⟨fun kid' hk => ?_, trivial⟩)
    cases List.mem_singleton.mp hk
    obtain ⟨before, between, ds, new, old, -, -, -⟩ := hr
    exact ⟨new, old, by simp, rfl⟩

theorem allowing_honest : Allowing Honest where
  observed := fun _ _ => trivial
  read := fun _ _ => trivial
  reported := fun _ _ he => honest_of_noneRotated he
  reload := honest_reload
  rotate := honest_rotate

theorem Sound.handedIn_of_reported {x : Fleet} (hx : Sound x) {e : Entry} (he : e ∈ x.shared.history)
    {events : List Event} (hd : e.deed = .reported events) {kid : String} (hk : .rotated kid ∈ events) :
    ∃ handed ∈ x.shared.history, handed.job = e.job ∧
      ∃ new old, handed.deed = .handedIn new old (.ok ()) ∧ new.kid = kid := by
  obtain ⟨job, hj, -⟩ := hx.owned e he
  have hmem : e.deed ∈ deedsOf e.job x.shared.history :=
    List.mem_map_of_mem (List.mem_filter.mpr ⟨he, by simp⟩)
  obtain ⟨past, more, hsplit⟩ := List.append_of_mem hmem
  have hhonest := (hx.follows e.job job hj).allows (allowing_honest.operation job.operation []) hsplit
  rw [hd] at hhonest
  obtain ⟨new, old, hpast, hkid⟩ := hhonest kid hk
  obtain ⟨handed, hhanded, hdeed, hjob⟩ :=
    entry_of_mem (hsplit ▸ List.mem_append_left _ hpast)
  exact ⟨handed, hhanded, hjob, new, old, hdeed, hkid⟩

theorem Sound.stored_of_handedIn {x : Fleet} (hx : Sound x) (hev : Evolved x) {e : Entry}
    (he : e ∈ x.shared.history) {new : Record} {old : Option Record}
    (hd : e.deed = .handedIn new old (.ok ())) :
    ∃ r ∈ x.shared.store.records, r.BecameFrom new := by
  obtain ⟨past, more, -, hfits⟩ := hx.consistent.fits he
  have hstored := hfits.explained
  rw [hd] at hstored
  exact (hev.current e he).kept new hstored.1

end Fleet

/-- There is one record with the id of a record, and it is as it was or has become inactive. -/
def Store.Keeps (s : Store) (r : Record) : Prop :=
  ∃ r', r'.BecameFrom r ∧ ∀ a, a ∈ s.records ∧ a.kid = r.kid ↔ a = r'

theorem Store.keeps_of_becameFrom {s : Store} {r : Record} (h : ∃ r' ∈ s.records, r'.BecameFrom r) :
    s.Keeps r := by
  obtain ⟨r', hr', hbecame⟩ := h
  refine ⟨r', hbecame, fun a => ⟨fun ⟨ha, hkid⟩ => ?_, ?_⟩⟩
  · exact s.eq_of_kid_eq ha hr' (hkid.trans hbecame.kid_eq.symm)
  · rintro rfl
    exact ⟨hr', hbecame.kid_eq⟩

namespace Fleet

/-- Nothing is lost and nothing comes back, however the calls of any number of managers follow one
another. A record stays as it is, but for becoming inactive; an algorithm that has had an active record
has one; and the record of a rotation that has gone well, be it one of a sweep, is there once. -/
theorem records_outlast_any_run (store : Store) (moves more : List Move)
    (hedit : ∀ mv ∈ moves ++ more, mv.isEdit = false) :
    (∀ r ∈ ((fresh store).run moves).shared.store.records,
      ((fresh store).run (moves ++ more)).shared.store.Keeps r) ∧
    (∀ alg, ((fresh store).run moves).shared.store.HasActive alg →
      ((fresh store).run (moves ++ more)).shared.store.HasActive alg) ∧
    (∀ (i m : Nat) (alg : Alg) (kid : String),
      ((fresh store).run moves).jobs[i]? = some ⟨m, .rotate alg, .done (.ok (.kid kid))⟩ →
      ∃ new, new.kid = kid ∧ new.alg = alg ∧
        ((fresh store).run (moves ++ more)).shared.store.Keeps new) ∧
    ∀ e ∈ ((fresh store).run moves).shared.history, ∀ events kid, e.deed = .reported events →
      .rotated kid ∈ events → ∃ new, new.kid = kid ∧
        ((fresh store).run (moves ++ more)).shared.store.Keeps new := by
  obtain ⟨hx, hev⟩ := sound_evolved_run store fun mv h => hedit mv (List.mem_append_left more h)
  have hgrows := (growsTo_run hx hev fun mv h => hedit mv (List.mem_append_right moves h)).1.store
  rw [run_append]
  generalize (fresh store).run moves = x at *
  have hhanded {e : Entry} (he : e ∈ x.shared.history) {new : Record} {old : Option Record}
      (hd : e.deed = .handedIn new old (.ok ())) : (x.run more).shared.store.Keeps new := by
    obtain ⟨r, hr, hbecame⟩ := hx.stored_of_handedIn hev he hd
    obtain ⟨r', hr', hbecame'⟩ := hgrows.kept r hr
    exact Store.keeps_of_becameFrom ⟨r', hr', hbecame'.trans hbecame⟩
  refine ⟨fun r hr => Store.keeps_of_becameFrom (hgrows.kept r hr), hgrows.active, ?_, ?_⟩
  · intro i m alg kid hjob
    obtain ⟨new, old, handed, start, fin, g, s, -, hkid, halg, hsub, hd, -⟩ := hx.rotation_entries hjob
    exact ⟨new, hkid, halg, hhanded (hsub.subset List.mem_cons_self) hd⟩
  · intro e he events kid hd hk
    obtain ⟨handed, hmem, -, new, old, hdeed, hkid⟩ := hx.handedIn_of_reported he hd hk
    exact ⟨new, hkid, hhanded hmem hdeed⟩

/-- Two rotations of an algorithm, both of which have listed the store before either stores its record. -/
def Sample.overlapping : List Move :=
  [.start 0 (.rotate .rs256), .start 1 (.rotate .rs256)] ++ advances 0 2 ++ advances 1 2 ++
    advances 0 13 ++ List.replicate 13 (.advance 1 { setting with random := List.replicate 12 1 })

/-- Both of them go well, and put the same record out of use. -/
theorem records_outlast_overlapping_rotations :
    let y := (fresh Sample.store).run Sample.overlapping
    y.shared.store.size = 3 ∧ y.shared.store.Keeps Sample.record ∧ y.shared.store.HasActive .rs256 ∧
      (∃ new, new.kid = "RS256_AAAAAAAAAAAAAAAA" ∧ new.alg = .rs256 ∧ y.shared.store.Keeps new) ∧
      ∃ new, new.kid = "RS256_AQEBAQEBAQEBAQEB" ∧ new.alg = .rs256 ∧ y.shared.store.Keeps new := by
  have hfirst : Sample.record ∈ Sample.store.records := by decide +kernel
  obtain ⟨hkept, hactive, -⟩ := records_outlast_any_run Sample.store [] Sample.overlapping (by decide)
  obtain ⟨-, -, hrotated, -⟩ := records_outlast_any_run Sample.store Sample.overlapping [] (by decide)
  rw [List.nil_append] at hkept hactive
  rw [List.append_nil] at hrotated
  refine ⟨by decide +kernel, hkept _ hfirst, hactive _ ⟨Sample.record, hfirst, rfl, rfl⟩, ?_, ?_⟩
  · exact hrotated 0 0 .rs256 _ (Job.eq_of_rotated? (by decide +kernel))
  · exact hrotated 1 1 .rs256 _ (Job.eq_of_rotated? (by decide +kernel))

end Fleet
end Keyring
