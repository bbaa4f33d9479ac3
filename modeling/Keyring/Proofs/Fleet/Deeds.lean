import Keyring.Proofs.Fleet.Path
import Keyring.Proofs.Store.Evolution
import Keyring.Proofs.Store.Newest

/-!
The deeds of the operations. A reload takes a number, lists the store, opens what was listed and
installs or discards the snapshot, in this order. A rotation hands in an active record, and with it at
most the deactivated form of one that it has listed.
-/
set_option autoImplicit false

namespace Keyring.Fleet
open Manager

/-- A snapshot of the number is at hand: the last deeds took the number, listed the store and opened the
records. -/
def Prepared (past : List Deed) (generation : Nat) (s : Snapshot) : Prop :=
  ∃ earlier records setting events,
    past = earlier ++
      [.numbered generation, .listed (.ok records), .observed setting, .reported events] ∧
    Snapshot.ofRecords setting.encryptor records = (.ok s, events)

/-- Whether a job may do the deed after the deeds before it. -/
def Lawful (past : List Deed) : Deed → Prop
  | .installed generation s => Prepared past generation s
  | .discarded generation s => Prepared past generation s
  | .handedIn new old _ => new.isActive = true ∧ ∀ o, old = some o →
      ∃ records, Deed.listed (.ok records) ∈ past ∧
        ∃ r ∈ records, r.alg = new.alg ∧ o = r.deactivated
  | _ => True

/-- The deeds of a whole reload with its outcome. -/
inductive ReloadDeeds : List Deed → Except KeyError Unit → Prop where
  | unlisted (generation : Nat) (error : KeyError) :
      ReloadDeeds [.numbered generation, .listed (.error error)] (.error error)
  | unopened (generation : Nat) (records : List Record) (setting : Setting) (events : List Event)
      (error : KeyError) (h : Snapshot.ofRecords setting.encryptor records = (.error error, events)) :
      ReloadDeeds [.numbered generation, .listed (.ok records), .observed setting, .reported events]
        (.error error)
  | finished (generation : Nat) (records : List Record) (setting : Setting) (events : List Event)
      (s : Snapshot) (d : Deed) (h : Snapshot.ofRecords setting.encryptor records = (.ok s, events))
      (hd : d.finish? = some (generation, s)) :
      ReloadDeeds
        [.numbered generation, .listed (.ok records), .observed setting, .reported events, d] (.ok ())

theorem openRecords_along {allowed : List Deed → Deed → Prop} (records : List Record)
    (past : List Deed)
    (h : ∀ setting, allowed past (.observed setting) ∧ allowed (past ++ [.observed setting])
      (.reported (Snapshot.ofRecords setting.encryptor records).2)) :
    (openRecords records).Along allowed (fun now outcome => ∃ setting events,
      now = past ++ [.observed setting, .reported events] ∧
      Snapshot.ofRecords setting.encryptor records = (outcome, events)) past := by
  refine .bind (Action.along_observe fun setting => ⟨(h setting).1, ?_⟩)
  exact .bind (Action.along_report _ ⟨(h setting).2, setting, _, by simp, rfl⟩)

theorem reload_along (past : List Deed) :
    reload.Along Lawful
      (fun now outcome => ∃ ds, now = past ++ ds ∧ ReloadDeeds ds outcome) past := by
  refine .bind (.bind (Action.along_takeGeneration fun g => ⟨trivial, ?_⟩))
  refine .bind (.attempt (Action.along_list fun listing => ⟨trivial, ?_⟩))
  cases listing with
  | error error => exact ⟨_, by simp, .unlisted g error⟩
  | ok records =>
    refine .bind (.bind (.mono (openRecords_along records _ fun _ => ⟨trivial, trivial⟩) ?_))
    intro now outcome hnow
    obtain ⟨setting, events, rfl, h⟩ := hnow
    cases outcome with
    | error error => exact ⟨_, by simp, .unopened g records setting events error h⟩
    | ok s =>
      have hp : Prepared (past ++ [.numbered g] ++ [.listed (.ok records)] ++
          [.observed setting, .reported events]) g s := ⟨past, records, setting, events, by simp, h⟩
      refine Action.along_install g s fun d hd =>
        ⟨?_, _, by simp, .finished g records setting events s d h ?_⟩
      · rcases hd with rfl | rfl <;> exact hp
      · rcases hd with rfl | rfl <;> rfl

theorem reloadOnMiss_along (past : List Deed) :
    reloadOnMiss.Along Lawful (fun now outcome => outcome = .ok () ∧ ∃ ds,
      now = past ++ ds ∧ ReloadDeeds ds (.ok ()) ∨
      ∃ error event, now = past ++ ds ++ [.reported [event]] ∧
        ReloadDeeds ds (.error error)) past := by
  refine .bind (.attempt (.mono (reload_along past) ?_))
  intro now outcome hnow
  obtain ⟨ds, rfl, h⟩ := hnow
  cases outcome with
  | error error => exact Action.along_report _ ⟨trivial, rfl, ds, .inr ⟨error, _, rfl, h⟩⟩
  | ok _ => exact ⟨rfl, ds, .inl ⟨rfl, h⟩⟩

def lastLook (find? : Snapshot → Option CachedKey) (missing : KeyError) (s : Snapshot) :
    Except KeyError CachedKey :=
  match find? s with
  | some key => .ok key
  | none => .error missing

/-- The deeds of a whole look-up with its outcome. -/
inductive LookUpDeeds (find? : Snapshot → Option CachedKey) (missing : KeyError) :
    List Deed → Except KeyError CachedKey → Prop where
  | hit (s : Snapshot) (key : CachedKey) (event : Event) (h : find? s = some key) :
      LookUpDeeds find? missing [.read s, .reported [event]] (.ok key)
  | reloaded (s s' : Snapshot) (event : Event) (ds : List Deed) (h : find? s = none)
      (hr : ReloadDeeds ds (.ok ())) :
      LookUpDeeds find? missing ([.read s, .reported [event]] ++ ds ++ [.read s'])
        (lastLook find? missing s')
  | unreloaded (s s' : Snapshot) (event event' : Event) (ds : List Deed) (error : KeyError)
      (h : find? s = none) (hr : ReloadDeeds ds (.error error)) :
      LookUpDeeds find? missing
        ([.read s, .reported [event]] ++ ds ++ [.reported [event'], .read s'])
        (lastLook find? missing s')

theorem lookUp_along (find? : Snapshot → Option CachedKey) (hit miss : Event) (missing : KeyError)
    (past : List Deed) :
    (lookUp find? hit miss missing).Along Lawful
      (fun now outcome => ∃ ds, now = past ++ ds ∧ LookUpDeeds find? missing ds outcome) past := by
  refine .bind (Action.along_snapshot fun s => ⟨trivial, ?_⟩)
  cases h : find? s with
  | some key =>
    simp only [h]
    exact .bind (Action.along_report _ ⟨trivial, _, by simp, .hit s key hit h⟩)
  | none =>
    simp only [h]
    refine .bind (Action.along_report _ ⟨trivial, .bind (.mono (reloadOnMiss_along _) ?_)⟩)
    have hlast : ∀ s' now, (match find? s' with
        | some key => Pure.pure key
        | none => Action.fail missing : Action CachedKey).Along Lawful
          (fun later outcome => later = now ∧ outcome = lastLook find? missing s') now := by
      intro s' now
      unfold lastLook
      cases find? s' <;> exact ⟨rfl, rfl⟩
    intro now outcome hnow
    obtain ⟨rfl, ds, ⟨rfl, hr⟩ | ⟨error, event, rfl, hr⟩⟩ := hnow
    · refine .bind (Action.along_snapshot fun s' => ⟨trivial, (hlast s' _).mono ?_⟩)
      intro later result hlater
      obtain ⟨rfl, rfl⟩ := hlater
      exact ⟨_, by simp, .reloaded s s' miss ds h hr⟩
    · refine .bind (Action.along_snapshot fun s' => ⟨trivial, (hlast s' _).mono ?_⟩)
      intro later result hlater
      obtain ⟨rfl, rfl⟩ := hlater
      exact ⟨_, by simp, .unreloaded s s' miss event ds error h hr⟩

theorem failPoint_onlyObserves (p : FailPoint) (error : KeyError) :
    (Action.failPoint p error).OnlyObserves := by
  refine .bind .observe fun setting => ?_
  split <;> exact .done _

theorem grantedTtl_onlyObserves : grantedTtl.OnlyObserves := by
  refine .bind .observe fun setting => .bind (.done _) fun ttl => ?_
  split <;> exact .done _

theorem makeKey_onlyObserves (alg : Alg) : (makeKey alg).OnlyObserves := by
  refine .bind .observe fun setting => .bind (.done _) fun key => .bind (.done _) fun der => ?_
  exact .bind (failPoint_onlyObserves _ _) fun _ => .bind .observe fun setting => .done _

theorem makeRecord_along (alg : Alg) (ttl : Duration) (key : EncryptedKey) (past : List Deed) :
    (makeRecord alg ttl key).Along Lawful
      (fun now outcome => ∃ setting, now = past ++ [.observed setting] ∧
        ∀ r, outcome = .ok r → r.alg = alg ∧ r.isActive = true) past := by
  refine .bind (Action.along_observe fun setting => ⟨trivial, ?_⟩)
  dsimp only
  split
  · refine ⟨setting, rfl, fun r hr => ?_⟩
    cases hr
  · refine ⟨setting, rfl, fun r hr => ?_⟩
    cases hr
    exact ⟨rfl, rfl⟩

def Deed.handedIn? : Deed → Option (Record × Option Record)
  | .handedIn new old _ => some (new, old)
  | _ => none

/-- The deeds of a whole rotation that goes well, with the id of the new key. -/
inductive RotationDeeds (alg : Alg) : List Deed → String → Prop where
  | mk (before between ds : List Deed) (new : Record) (old : Option Record)
      (hb : ∀ d ∈ before ++ between, d.handedIn? = none) (halg : new.alg = alg)
      (hr : ReloadDeeds ds (.ok ())) :
      RotationDeeds alg (before ++ .handedIn new old (.ok ()) :: (between ++ ds)) new.kid

theorem rotateUnreported_along (alg : Alg) (past : List Deed) :
    (rotateUnreported alg).Along Lawful
      (fun now outcome => ∀ kid, outcome = .ok kid →
        ∃ ds, now = past ++ ds ∧ RotationDeeds alg ds kid) past := by
  have hobserve : ∀ now setting, Lawful now (.observed setting) := fun _ _ => trivial
  refine grantedTtl_onlyObserves.along_bind hobserve fun ttl ds₁ h₁ => ?_
  refine .bind (Action.along_list fun listing => ⟨trivial, ?_⟩)
  rcases listing with error | records
  · intro kid h
    cases h
  refine (makeKey_onlyObserves alg).along_bind hobserve fun key ds₂ h₂ => ?_
  refine .bind ((makeRecord_along alg ttl key _).mono ?_)
  intro now outcome hnow
  obtain ⟨setting, rfl, hnew⟩ := hnow
  rcases outcome with error | new
  · intro kid h
    cases h
  obtain ⟨halg, hactive⟩ := hnew new rfl
  refine (failPoint_onlyObserves _ _).along_bind hobserve fun _ ds₃ h₃ => ?_
  refine .bind (Action.along_rotateStore _ _ fun outcome => ⟨⟨hactive, ?_⟩, ?_⟩)
  · intro o ho
    obtain ⟨r, hr, rfl⟩ := Option.map_eq_some_iff.mp ho
    have hr := Record.isNewestActive_of_newestActive? hr
    exact ⟨records, by simp, r, hr.mem, by rw [hr.alg_eq, halg], rfl⟩
  rcases outcome with error | _
  · intro kid h
    cases h
  refine (failPoint_onlyObserves _ _).along_bind hobserve fun _ ds₄ h₄ => ?_
  refine .bind ((reload_along _).mono ?_)
  intro now outcome hnow
  obtain ⟨ds, rfl, hr⟩ := hnow
  rcases outcome with error | _
  · intro kid h
    cases h
  intro kid h
  cases h
  refine ⟨ds₁ ++ .listed (.ok records) :: (ds₂ ++ .observed setting :: ds₃) ++
    .handedIn new ((Record.newestActive? alg records).map Record.deactivated) (.ok ()) ::
      (ds₄ ++ ds), by simp, .mk _ ds₄ ds new _ ?_ halg hr⟩
  have hquiet : ∀ d, (∃ setting, d = Deed.observed setting) → d.handedIn? = none := by
    intro d hd
    obtain ⟨setting, rfl⟩ := hd
    rfl
  intro d hd
  simp only [List.mem_append, List.mem_cons] at hd
  rcases hd with (h | rfl | h | rfl | h) | h
  · exact hquiet d (h₁ d h)
  · rfl
  · exact hquiet d (h₂ d h)
  · rfl
  · exact hquiet d (h₃ d h)
  · exact hquiet d (h₄ d h)

theorem rotate_along (alg : Alg) (past : List Deed) :
    (rotate alg).Along Lawful (fun now outcome => ∀ kid, outcome = .ok kid →
      ∃ ds event, now = past ++ ds ++ [.reported [event]] ∧ RotationDeeds alg ds kid) past := by
  refine .bind (.attempt ((rotateUnreported_along alg past).mono ?_))
  intro now outcome hnow
  cases outcome with
  | error error =>
    refine .bind (Action.along_report _ ⟨trivial, fun kid h => ?_⟩)
    cases h
  | ok kid =>
    obtain ⟨ds, rfl, hr⟩ := hnow kid rfl
    refine .bind (Action.along_report _ ⟨trivial, fun kid' h => ?_⟩)
    cases h
    exact ⟨ds, _, rfl, hr⟩

end Keyring.Fleet
