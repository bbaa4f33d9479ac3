import Keyring.Proofs.Except
import Keyring.Proofs.Manager.Audit
import Keyring.Proofs.Manager.Gaps

/-!
Rotations straight one after another, as a sweep or the making of keys consists of them. Each leaves the
records of the other algorithms as they are, so that what one has brought about is still there after the others.
-/
set_option autoImplicit false

namespace Keyring.Manager

open Manager.Action

variable {α β : Type} {outside : Outside} {alg : Alg} {kid : String} {w w' : World}

/-- A rotation has taken effect: the store has the record with the id in the place of the newest active one of
the algorithm, and so has the snapshot in use. -/
def TookEffect (alg : Alg) (kid : String) (w w' : World) : Prop :=
  ∃ new old, new.kid = kid ∧ w.store.Replaced alg new old w'.store ∧
    (w.published.Settled → ∃ key, w'.published.snapshot.get? kid = some key ∧ key.record = new)

namespace Rotated

variable {outcome : Except KeyError String}

theorem sameOf (h : Rotated outside alg w outcome w') {other : Alg} (hne : other ≠ alg) :
    Store.SameOf other w.store w'.store := by
  rcases h.store_cases with hs | ⟨new, hs⟩
  · exact fun _ _ => by rw [hs]
  · exact hs.sameOf hne

theorem tookEffect (h : Rotated outside alg w (.ok kid) w') : TookEffect alg kid w w' := by
  have htaken := h.taken
  cases h with
  | published new s hs _ _ =>
    obtain ⟨old, hreplaced⟩ := hs.replaced
    exact ⟨new, old, rfl, hreplaced, fun hw => (htaken hw).get? hreplaced.new_mem⟩

theorem known (h : Rotated outside alg w outcome w') (hw : w.published.Settled) {r : Record}
    (hr : r ∈ w'.store.records)
    (hkey : ∃ key, w.published.snapshot.get? r.kid = some key ∧ key.record = r) :
    ∃ key, w'.published.snapshot.get? r.kid = some key ∧ key.record = r := by
  cases h with
  | refused error _ hp => rwa [hp]
  | unpublished error new _ hkept => rwa [hkept.snapshot]
  | published new s hs htaken hp =>
    have hrotated : Rotated outside alg w (.ok new.kid) w' := .published new s hs htaken hp
    exact (hrotated.taken hw).get? hr

end Rotated

/-- Rotations of which each begins in the world that the one before it has left, and nothing else. -/
inductive Chain (outside : Outside) : World → List RotationCall → World → Prop where
  | nil (w : World) : Chain outside w [] w
  | cons {c : RotationCall} {calls : List RotationCall} {w' : World} (ho : c.outside = outside)
      (h : Chain outside c.after calls w') : Chain outside c.before (c :: calls) w'

theorem RotationCall.rotated_of {c : RotationCall} (ho : c.outside = outside) :
    Rotated outside c.alg c.before c.outcome c.after := ho ▸ c.rotated

namespace Chain

variable {c : RotationCall} {calls former later : List RotationCall}

theorem eq_of_nil (h : Chain outside w [] w') : w' = w := by
  cases h with
  | nil => rfl

theorem split (h : Chain outside w (former ++ c :: later) w') :
    c.outside = outside ∧ Chain outside w former c.before ∧ Chain outside c.after later w' := by
  induction former generalizing w with
  | nil =>
    cases h with
    | cons ho h => exact ⟨ho, .nil _, h⟩
  | cons d former ih =>
    cases h with
    | cons ho h =>
      obtain ⟨hoc, hformer, hlater⟩ := ih h
      exact ⟨hoc, .cons ho hformer, hlater⟩

theorem keeps {inv : World → Prop} (hi : Invariant outside inv) (h : Chain outside w calls w') (hw : inv w) :
    inv w' := by
  induction h with
  | nil w => exact hw
  | cons ho _ ih => exact ih (hi.rotated hw (RotationCall.rotated_of ho))

theorem settled (h : Chain outside w calls w') (hw : w.published.Settled) : w'.published.Settled :=
  h.keeps (invariant_settled outside) hw

theorem evolves (h : Chain outside w calls w') : w.store.EvolvesTo w'.store := by
  induction h with
  | nil w => exact .refl _
  | cons ho _ ih => exact (RotationCall.rotated_of ho).evolves.trans ih

theorem sameOf (h : Chain outside w calls w') (hn : alg ∉ calls.map RotationCall.alg) :
    Store.SameOf alg w.store w'.store := by
  induction h with
  | nil w => exact fun _ _ => Iff.rfl
  | @cons c calls w' ho _ ih =>
    rw [List.map_cons, List.mem_cons, not_or] at hn
    exact fun a halg => (ih hn.2 a halg).trans ((RotationCall.rotated_of ho).sameOf hn.1 a halg)

theorem known (h : Chain outside w calls w') (hw : w.published.Settled) {r : Record} (hr : r ∈ w.store.records)
    (hn : r.alg ∉ calls.map RotationCall.alg)
    (hkey : ∃ key, w.published.snapshot.get? r.kid = some key ∧ key.record = r) :
    ∃ key, w'.published.snapshot.get? r.kid = some key ∧ key.record = r := by
  induction h with
  | nil w => exact hkey
  | @cons c calls w' ho _ ih =>
    rw [List.map_cons, List.mem_cons, not_or] at hn
    have hrotated := RotationCall.rotated_of ho
    have hr' := (hrotated.sameOf hn.1 r rfl).mpr hr
    exact ih ((invariant_settled outside).rotated hw hrotated) hr' hn.2 (hrotated.known hw hr' hkey)

/-- What a rotation has brought about is neither undone nor hidden by those of other algorithms. -/
theorem tookEffect (h : Chain outside w calls w') (hd : (calls.map RotationCall.alg).Nodup) (hc : c ∈ calls)
    (hok : c.outcome = .ok kid) : TookEffect c.alg kid w w' := by
  obtain ⟨former, later, rfl⟩ := List.append_of_mem hc
  obtain ⟨ho, hformer, hlater⟩ := h.split
  rw [List.map_append, List.map_cons, List.nodup_middle, List.nodup_cons, List.mem_append, not_or] at hd
  obtain ⟨⟨hnotFormer, hnotLater⟩, -⟩ := hd
  obtain ⟨new, old, hkid, hreplaced, hknown⟩ := (hok ▸ RotationCall.rotated_of ho).tookEffect
  refine ⟨new, old, hkid, ?_, fun hw => ?_⟩
  · exact (hreplaced.of_sameOf (hlater.sameOf hnotLater)).after_sameOf hformer.evolves (hformer.sameOf hnotFormer)
  · subst hkid
    have hbefore := hformer.settled hw
    have hafter := (invariant_settled outside).rotated hbefore (RotationCall.rotated_of ho)
    exact hlater.known hafter hreplaced.new_mem (hreplaced.new_alg ▸ hnotLater) (hknown hbefore)

end Chain

def Action.HandsInNothing (a : Action α) : Prop := ∀ outside w, (a.run outside w).2.rotateCalls = w.rotateCalls

section calls

theorem Action.Quiet.handsInNothing {a : Action α} (h : a.Quiet) : a.HandsInNothing :=
  fun outside w => (h outside w).ends.rotateCalls

theorem Action.HandsInNothing.bind {a : Action α} {f : α → Action β} (h : a.HandsInNothing)
    (hf : ∀ x, (f x).HandsInNothing) : (a >>= f).HandsInNothing := by
  intro outside w
  have ha := h outside w
  rw [run_bind]
  cases hrun : a.run outside w with
  | mk outcome v =>
    rw [hrun] at ha
    cases outcome with
    | error error => exact ha
    | ok x => exact (hf x outside v).trans ha

theorem list_handsInNothing : list.HandsInNothing := fun _ _ => rfl

theorem makeRecord_quiet (alg : Alg) (ttl : Duration) (key : EncryptedKey) : (makeRecord alg ttl key).Quiet :=
  fun _ w => (makeRecord_runs alg ttl key w).mono (fun _ hv => hv) fun _ _ hv => hv.1

theorem prepare_handsInNothing (alg : Alg) : (prepare alg).HandsInNothing := by
  refine grantedTtl_quiet.handsInNothing.bind fun ttl => list_handsInNothing.bind fun records => ?_
  refine Quiet.handsInNothing ((makeKey_quiet alg).bind fun key => (makeRecord_quiet alg ttl key).bind fun new => ?_)
  exact (quiet_failPoint _ _).bind fun _ => quiet_done _

theorem rotateUnreported_calls_store_once (h : (rotateUnreported alg).run outside w = (.ok kid, w')) :
    w'.rotateCalls = w.rotateCalls + 1 := by
  rw [rotateUnreported_eq, run_bind] at h
  have hprepared := prepare_handsInNothing alg outside w
  cases hrun : (prepare alg).run outside w with
  | mk outcome v =>
  rw [hrun] at h hprepared
  rcases outcome with error | ⟨new, old⟩
  · cases h
  simp only [run_bind, rotateStore_run] at h
  cases hr : (outside v.moment).rotate v.store new (old.map Record.deactivated) with
  | error error =>
    rw [hr] at h
    cases h
  | ok store =>
    rw [hr] at h
    -- from here on the store is only listed
    have hpublished : (publish new.kid).run outside { refusal v with store := store } = (.ok kid, w') := h
    have hend := (@publish_runs outside new.kid { refusal v with store := store }).ends
    rw [hpublished] at hend
    obtain ⟨reloaded, -, hreloaded⟩ := hend
    exact hreloaded.rotateCalls.trans (congrArg Nat.succ hprepared)

theorem rotate_calls_store_once (h : (rotate alg).run outside w = (.ok kid, w')) :
    w'.rotateCalls = w.rotateCalls + 1 := by
  rw [rotate, run_bind, run_attempt] at h
  cases hrun : (rotateUnreported alg).run outside w with
  | mk outcome v =>
  rw [hrun] at h
  cases outcome with
  | error error => cases h
  | ok kid' =>
    have hcalls := rotateUnreported_calls_store_once hrun
    cases h
    exact hcalls

end calls

namespace RotationCall

variable {c : RotationCall}

theorem rotateCalls_after (h : c.outcome = .ok kid) : c.after.rotateCalls = c.before.rotateCalls + 1 :=
  rotate_calls_store_once (Prod.ext h rfl : (rotate c.alg).run c.outside c.before = (.ok kid, c.after))

def rotated? (c : RotationCall) : Option Alg :=
  match c.outcome with
  | .ok _ => some c.alg
  | .error _ => none

def failure? (c : RotationCall) : Option (Alg × KeyError) :=
  match c.outcome with
  | .ok _ => none
  | .error error => some (c.alg, error)

end RotationCall

theorem rotateEach_run (outside : Outside) (algs : List Alg) (w : World) : ∃ calls w',
    Chain outside w calls w' ∧ calls.map RotationCall.alg = algs ∧ (rotateEach algs).run outside w =
      (.ok (calls.filterMap RotationCall.rotated?, calls.filterMap RotationCall.failure?), w') := by
  induction algs generalizing w with
  | nil => exact ⟨[], w, .nil w, rfl, rfl⟩
  | cons alg more ih =>
    let c : RotationCall := ⟨outside, alg, w⟩
    obtain ⟨calls, w', hchain, halgs, hrun⟩ := ih c.after
    have hall : Chain outside c.before (c :: calls) w' := .cons rfl hchain
    refine ⟨c :: calls, w', hall, by rw [List.map_cons, halgs], ?_⟩
    have hmore : (rotateEach more).run outside ((rotate alg).run outside w).2 = _ := hrun
    rw [rotateEach, run_bind, run_attempt]
    simp only [run_bind, hmore, List.filterMap_cons, RotationCall.rotated?, RotationCall.failure?]
    have hc : ((rotate alg).run outside w).1 = c.outcome := rfl
    rw [hc]
    cases c.outcome <;> rfl

end Keyring.Manager
