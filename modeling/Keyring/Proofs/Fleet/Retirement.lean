import Keyring.Proofs.Fleet.Records
import Keyring.Proofs.Manager.Lifetimes
import Keyring.Proofs.Snapshot.Order

set_option autoImplicit false

namespace Keyring

/-- The search through the records and the contest of their keys have the same outcome. -/
theorem Snapshot.newestActive?_eq_active? {e : Encryptor} {records listing : List Record} {s : Snapshot}
    (alg : Alg) (hd : (records.map Record.kid).Nodup) (hp : listing.Perm records)
    (hs : (ofRecords e listing).1 = .ok s) :
    Record.newestActive? alg records = (s.active? alg).map CachedKey.record := by
  obtain ⟨ks, rfl, hnewest⟩ := @isNewest_of_ofRecords e listing s alg hs
  have hmem : ∀ r, r ∈ records ↔ ∃ k ∈ ks, k.record = r := fun r => by rw [← hp.mem_iff, List.mem_map]
  cases hactive : s.active? alg with
  | none =>
    rw [hactive] at hnewest
    refine Record.newestActive?_eq_none_iff.mpr fun r hr hc => ?_
    obtain ⟨k, hk, rfl⟩ := (hmem r).mp hr
    exact hnewest k hk ⟨hc.2, hc.1⟩
  | some key =>
    rw [hactive] at hnewest
    obtain ⟨⟨hkey, hkactive, hkalg⟩, hlast⟩ := hnewest
    have hrecord : Record.IsNewestActive alg records key.record := by
      refine ⟨(hmem _).mpr ⟨key, hkey, rfl⟩, hkalg, hkactive, fun a ha halg hact => ?_⟩
      obtain ⟨k, hk, rfl⟩ := (hmem a).mp ha
      exact hlast k hk hact halg
    cases hfound : Record.newestActive? alg records with
    | none => exact absurd ⟨hkalg, hkactive⟩ (Record.newestActive?_eq_none_iff.mp hfound _ hrecord.mem)
    | some r =>
      have hr := Record.isNewestActive_of_newestActive? hfound
      exact congrArg some (List.inj_on_of_nodup_map hd hr.mem hrecord.mem (hr.kid_eq hrecord))

open Fleet Manager

namespace Manager.Action

variable {α : Type} (outside : Outside)

def deeds : Action α → World → List Deed
  | .done _, _ => []
  | .call c next, w =>
    let (answer, w') := c.perform (outside w.moment) w
    .ofCall w.published c answer :: (next answer).deeds w'

theorem deeds_bind {β : Type} {a : Action α} (f : α → Action β) {w w' : World} {x : α}
    (h : a.run outside w = (.ok x, w')) :
    (a >>= f).deeds outside w = a.deeds outside w ++ (f x).deeds outside w' := by
  induction a generalizing w with
  | done outcome =>
    cases h
    rfl
  | call c next ih => exact congrArg (_ :: ·) (ih _ h)

theorem deeds_attempt (a : Action α) (w : World) : a.attempt.deeds outside w = a.deeds outside w := by
  induction a generalizing w with
  | done outcome => rfl
  | call c next ih => exact congrArg (_ :: ·) (ih _ _)

theorem Follows.run {a rest : Action α} {ds : List Deed} (h : Follows a ds rest) (w : World) :
    Follows a (ds ++ rest.deeds outside w) (.done (rest.run outside w).1) := by
  induction rest generalizing ds w with
  | done outcome =>
    rw [deeds, List.append_nil]
    exact h
  | call c next ih =>
    have hnext := ih _ (h.step w.published (c.perform (outside w.moment) w).1)
      (c.perform (outside w.moment) w).2
    rwa [List.append_assoc] at hnext

end Manager.Action

namespace Fleet

def Deed.listing? : Deed → Option (Except KeyError (List Record))
  | .listed listing => some listing
  | _ => none

/-- What is handed in as old was found in the one listing made before. -/
def Retires (alg : Alg) (past : List Deed) (d : Deed) : Prop :=
  ∀ new old, d.handedIn? = some (new, old) → ∃ records, past.filterMap Deed.listing? = [.ok records] ∧
    old = (Record.newestActive? alg records).map Record.deactivated

theorem retires_of_quiet (alg : Alg) (past : List Deed) {d : Deed} (h : d.handedIn? = none) :
    Retires alg past d := by
  intro new old hd
  rw [h] at hd
  cases hd

theorem reload_retires (alg : Alg) (past : List Deed) :
    reload.Along (Retires alg) (fun _ _ => True) past := by
  refine .bind (.bind (Action.along_takeGeneration fun g => ⟨retires_of_quiet _ _ rfl, ?_⟩))
  refine .bind (.attempt (Action.along_list fun listing => ⟨retires_of_quiet _ _ rfl, ?_⟩))
  cases listing with
  | error error => trivial
  | ok records =>
    refine .bind (.bind (.mono (openRecords_along records _ fun _ => ⟨?_, ?_⟩) fun now outcome _ => ?_))
    · exact retires_of_quiet _ _ rfl
    · exact retires_of_quiet _ _ rfl
    cases outcome with
    | error error => trivial
    | ok s =>
      refine Action.along_install g s fun d hd => ⟨retires_of_quiet _ _ ?_, trivial⟩
      rcases hd with rfl | rfl <;> rfl

theorem listing?_of_observed {ds : List Deed} (h : ∀ d ∈ ds, ∃ setting, d = .observed setting) :
    ds.filterMap Deed.listing? = [] := by
  refine List.filterMap_eq_nil_iff.mpr fun d hd => ?_
  obtain ⟨setting, rfl⟩ := h d hd
  rfl

theorem rotateUnreported_retires (alg : Alg) :
    (rotateUnreported alg).Along (Retires alg) (fun _ outcome => ∀ kid, outcome = .ok kid → True) [] := by
  have hobserve : ∀ now setting, Retires alg now (.observed setting) :=
    fun now _ => retires_of_quiet alg now rfl
  refine grantedTtl_onlyObserves.along_bind hobserve fun ttl ds₁ h₁ => ?_
  refine .bind (Action.along_list fun listing => ⟨retires_of_quiet _ _ rfl, ?_⟩)
  rcases listing with error | records
  · exact fun _ _ => trivial
  refine (makeKey_onlyObserves alg).along_bind hobserve fun key ds₂ h₂ => ?_
  refine (makeRecord_onlyObserves alg ttl key).along_bind hobserve fun new ds₃ h₃ => ?_
  refine (failPoint_onlyObserves _ _).along_bind hobserve fun _ ds₄ h₄ => ?_
  refine .bind (Action.along_rotateStore _ _ fun outcome => ⟨?_, ?_⟩)
  · intro _ _ hd
    cases hd
    refine ⟨records, ?_, rfl⟩
    simp only [List.filterMap_append, listing?_of_observed h₁, listing?_of_observed h₂, listing?_of_observed h₃,
      listing?_of_observed h₄]
    rfl
  rcases outcome with error | _
  · exact fun _ _ => trivial
  refine (failPoint_onlyObserves _ _).along_bind hobserve fun _ ds₅ h₅ => ?_
  refine .bind ((reload_retires alg _).mono fun now outcome _ => ?_)
  cases outcome <;> exact fun _ _ => trivial

theorem rotate_along_retires (alg : Alg) : (rotate alg).Along (Retires alg) (fun _ _ => True) [] := by
  refine .bind (.attempt ((rotateUnreported_retires alg).mono fun now outcome _ => ?_))
  cases outcome with
  | error error => exact .bind (Action.along_report _ ⟨retires_of_quiet _ _ rfl, trivial⟩)
  | ok kid => exact .bind (Action.along_report _ ⟨retires_of_quiet _ _ rfl, trivial⟩)

/-- Some rotation of the algorithm lists these records and later hands in these two. -/
def HandsIn (alg : Alg) (records : List Record) (new : Record) (old : Option Record) : Prop :=
  ∃ before after outcome rest,
    Action.Follows (rotate alg) (before ++ .handedIn new old outcome :: after) rest ∧
      Deed.listed (.ok records) ∈ before

theorem HandsIn.old_eq {alg : Alg} {records : List Record} {new : Record} {old : Option Record}
    (h : HandsIn alg records new old) : old = (Record.newestActive? alg records).map Record.deactivated := by
  obtain ⟨before, after, outcome, rest, hf, hl⟩ := h
  obtain ⟨records', honce, hold⟩ := hf.allows (rotate_along_retires alg) rfl new old rfl
  have hmem : Except.ok records ∈ before.filterMap Deed.listing? := List.mem_filterMap.mpr ⟨_, hl, rfl⟩
  rw [honce, List.mem_singleton, Except.ok.injEq] at hmem
  rw [hold, hmem]

theorem exists_handsIn (alg : Alg) {records : List Record} (hd : (records.map Record.kid).Nodup) :
    ∃ new old, HandsIn alg records new old := by
  let outside : Outside := fun _ => Sample.setting
  let w : World := .fresh ⟨records, hd⟩
  obtain ⟨der, hder, -⟩ := Manager.Sample.exists_toDer
  have hcovered : (Sample.setting.now.add? Config.standard.keyTtl).isSome := by decide
  obtain ⟨expiry, hexpiry⟩ := Option.isSome_iff_exists.mp hcovered
  have hpositive : 0 < Config.standard.keyTtl.toNanos := by decide
  have hspan : Config.standard.keyTtl.toNanos ≤ Time.greatestSpan := by decide
  have hmakes : MakesKey outside alg w ⟨[], der⟩ := ⟨rfl, ⟨Sample.key, der, rfl, hder, rfl⟩, rfl⟩
  have hprepared := hmakes.prepare_granted rfl rfl hpositive hspan hexpiry
  have hlisted : Deed.listed (.ok records) ∈ (prepare alg).deeds outside w := by
    rw [prepare, Action.deeds_bind outside _ (grantedTtl_granted rfl hpositive hspan)]
    exact List.mem_append_right _ List.mem_cons_self
  obtain ⟨new, old, outcome, after, heq⟩ : ∃ new old outcome after, (rotate alg).deeds outside w =
      (prepare alg).deeds outside w ++ .handedIn new old outcome :: after := by
    rw [rotate, Action.deeds_bind outside _ (Action.run_attempt outside _ w), Action.deeds_attempt,
      rotateUnreported_eq, Action.deeds_bind outside _ hprepared, List.append_assoc]
    exact ⟨_, _, _, _, rfl⟩
  have hf := (Action.Follows.start (a := rotate alg)).run outside w
  rw [List.nil_append, heq] at hf
  exact ⟨new, old, _, after, outcome, _, hf, hlisted⟩

theorem rotation_retires_active_key (alg : Alg) {e : Encryptor} {records listing : List Record} {s : Snapshot}
    (hd : (records.map Record.kid).Nodup) (hp : listing.Perm records)
    (hs : (Snapshot.ofRecords e listing).1 = .ok s) :
    (∃ new old, HandsIn alg records new old) ∧ ∀ new old, HandsIn alg records new old →
      (∀ o, old = some o ↔ ∃ key, s.active? alg = some key ∧ key.record.deactivated = o) ∧
      (old = none ↔ s.active? alg = none) := by
  refine ⟨exists_handsIn alg hd, fun new old h => ?_⟩
  rw [h.old_eq, Snapshot.newestActive?_eq_active? alg hd hp hs]
  cases s.active? alg with
  | none => simp
  | some key => simp

def Sample.twins : List Record := [Sample.record, { Sample.record with kid := "RS256_second" }]

/-- Of two records of one moment, listed in either order, the one with the greater id is put out of use. -/
theorem rotation_retires_later_twin :
    ∃ s key, (Snapshot.ofRecords .plain Sample.twins.reverse).1 = .ok s ∧ s.active? .rs256 = some key ∧
      key.kid = "RS256_second" ∧ ∃ new, HandsIn .rs256 Sample.twins new (some key.record.deactivated) := by
  have hd : (Sample.twins.map Record.kid).Nodup := by decide
  have hopens : ∀ r ∈ Sample.twins.reverse, ∃ key, CachedKey.ofRecord .plain r = .ok key := by
    intro r hr
    simp only [Sample.twins, List.reverse_cons, List.reverse_nil, List.nil_append, List.cons_append,
      List.mem_cons, List.not_mem_nil, or_false] at hr
    rcases hr with rfl | rfl <;> exact Manager.Sample.opens rfl rfl
  obtain ⟨s, hs⟩ := Snapshot.exists_ofRecords hopens
  obtain ⟨⟨new, old, h⟩, hall⟩ := rotation_retires_active_key .rs256 hd (List.reverse_perm _) hs
  have hnewest : (s.active? .rs256).map CachedKey.record = some { Sample.record with kid := "RS256_second" } := by
    rw [← Snapshot.newestActive?_eq_active? .rs256 hd (List.reverse_perm _) hs]
    exact rfl
  obtain ⟨key, hkey, hrecord⟩ := Option.map_eq_some_iff.mp hnewest
  refine ⟨s, key, hs, hkey, by rw [CachedKey.kid, hrecord], new, ?_⟩
  rwa [← ((hall new old h).1 key.record.deactivated).mpr ⟨key, hkey, rfl⟩]

end Fleet
end Keyring
