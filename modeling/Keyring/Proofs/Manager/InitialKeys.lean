import Keyring.Proofs.Manager.Attempts

set_option autoImplicit false

namespace Keyring.Manager

open Manager.Action

variable {outside : Outside} {alg : Alg} {algs more : List Alg} {w w' : World} {calls : List RotationCall}

/-- How the making of keys goes: an algorithm with an active key in use is left alone, any other one is rotated,
and the first failure is the end. -/
inductive Filling (outside : Outside) :
    World → List Alg → List RotationCall → Except KeyError (List Alg) → World → Prop where
  | done (w : World) : Filling outside w [] [] (.ok []) w
  | skip {w w' : World} {alg : Alg} {more : List Alg} {calls : List RotationCall}
      {outcome : Except KeyError (List Alg)} (hsome : (w.published.snapshot.active? alg).isSome)
      (h : Filling outside w more calls outcome w') : Filling outside w (alg :: more) calls outcome w'
  | failed {c : RotationCall} {more : List Alg} {error : KeyError} (ho : c.outside = outside)
      (hnone : c.before.published.snapshot.active? c.alg = none) (herror : c.outcome = .error error) :
      Filling outside c.before (c.alg :: more) [c] (.error error) c.after
  | made {c : RotationCall} {kid : String} {more : List Alg} {calls : List RotationCall}
      {outcome : Except KeyError (List Alg)} {w' : World} (ho : c.outside = outside)
      (hnone : c.before.published.snapshot.active? c.alg = none) (hok : c.outcome = .ok kid)
      (h : Filling outside c.after more calls outcome w') :
      Filling outside c.before (c.alg :: more) (c :: calls) (outcome.map (c.alg :: ·)) w'

section run

theorem initKeys_run_of_some (h : (w.published.snapshot.active? alg).isSome) :
    (initKeys (alg :: more)).run outside w = (initKeys more).run outside w := by
  have hsnapshot : snapshot.run outside w = (.ok w.published.snapshot, w) := rfl
  simp only [initKeys, run_bind, hsnapshot, h, if_true]

theorem initKeys_run_of_none (h : w.published.snapshot.active? alg = none) :
    (initKeys (alg :: more)).run outside w = match (rotate alg).run outside w with
      | (.error error, v) => (.error error, v)
      | (.ok _, v) => (((initKeys more).run outside v).1.map (alg :: ·), ((initKeys more).run outside v).2) := by
  have hsnapshot : snapshot.run outside w = (.ok w.published.snapshot, w) := rfl
  simp only [initKeys, run_bind, hsnapshot, h, Option.isSome_none, Bool.false_eq_true, if_false]
  rcases (rotate alg).run outside w with ⟨error | kid, v⟩
  · rfl
  · dsimp only
    rcases (initKeys more).run outside v with ⟨error | rotated, v'⟩ <;> rfl

theorem initKeys_filling (outside : Outside) (algs : List Alg) (w : World) : ∃ calls,
    Filling outside w algs calls ((initKeys algs).run outside w).1 ((initKeys algs).run outside w).2 := by
  induction algs generalizing w with
  | nil => exact ⟨[], .done w⟩
  | cons alg more ih =>
    cases hkey : w.published.snapshot.active? alg with
    | some key =>
      have hsome : (w.published.snapshot.active? alg).isSome := by rw [hkey]; rfl
      obtain ⟨calls, hmore⟩ := ih w
      rw [initKeys_run_of_some hsome]
      exact ⟨calls, .skip hsome hmore⟩
    | none =>
      let c : RotationCall := ⟨outside, alg, w⟩
      have hc : (rotate alg).run outside w = (c.outcome, c.after) := rfl
      rw [initKeys_run_of_none hkey, hc]
      cases hoc : c.outcome with
      | error error => exact ⟨[c], .failed (c := c) rfl hkey hoc⟩
      | ok kid =>
        obtain ⟨calls, hmore⟩ := ih c.after
        exact ⟨c :: calls, .made (c := c) rfl hkey hoc hmore⟩

end run

namespace Filling

variable {outcome : Except KeyError (List Alg)}

theorem chain (h : Filling outside w algs calls outcome w') : Chain outside w calls w' := by
  induction h with
  | done w => exact .nil w
  | skip _ _ ih => exact ih
  | failed ho _ _ => exact .cons ho (.nil _)
  | made ho _ _ _ ih => exact .cons ho ih

theorem returned {rotated : List Alg} (h : Filling outside w algs calls (.ok rotated) w') :
    calls.map RotationCall.alg = rotated ∧ rotated.Sublist algs ∧ ∀ c ∈ calls, ∃ kid, c.outcome = .ok kid := by
  generalize hok : (.ok rotated : Except KeyError (List Alg)) = outcome at h
  induction h generalizing rotated with
  | done w =>
    cases hok
    exact ⟨rfl, .slnil, nofun⟩
  | skip _ _ ih =>
    obtain ⟨halgs, hsub, hcalls⟩ := ih hok
    exact ⟨halgs, hsub.cons _, hcalls⟩
  | failed _ _ _ => cases hok
  | @made c kid more calls outcome w' _ _ hkid _ ih =>
    cases outcome with
    | error error => cases hok
    | ok later =>
      cases hok
      obtain ⟨rfl, hsub, hcalls⟩ := ih rfl
      exact ⟨rfl, hsub.cons_cons _, List.forall_mem_cons.mpr ⟨⟨kid, hkid⟩, hcalls⟩⟩

theorem stopped {error : KeyError} (h : Filling outside w algs calls (.error error) w') :
    ∃ former c before after, calls = former ++ [c] ∧ c.outcome = .error error ∧ algs = before ++ c.alg :: after ∧
      (former.map RotationCall.alg).Sublist before ∧ ∀ d ∈ former, ∃ kid, d.outcome = .ok kid := by
  generalize herror : (.error error : Except KeyError (List Alg)) = outcome at h
  induction h with
  | done w => cases herror
  | @skip w w' alg more calls outcome _ _ ih =>
    obtain ⟨former, c, before, after, rfl, hc, rfl, hsub, hformer⟩ := ih herror
    exact ⟨former, c, alg :: before, after, rfl, hc, rfl, hsub.cons _, hformer⟩
  | @failed c more error' _ _ hc =>
    cases herror
    exact ⟨[], c, [], more, rfl, hc, rfl, .slnil, nofun⟩
  | @made d kid more calls outcome w' _ _ hkid _ ih =>
    cases outcome with
    | ok later => cases herror
    | error error' =>
      obtain ⟨former, c, before, after, rfl, hc, rfl, hsub, hformer⟩ := ih herror
      exact ⟨d :: former, c, d.alg :: before, after, rfl, hc, rfl, hsub.cons_cons _,
        List.forall_mem_cons.mpr ⟨⟨kid, hkid⟩, hformer⟩⟩

end Filling

/-- Each algorithm with an active key in use has an active record in the store. -/
def Backed (w : World) : Prop :=
  ∀ alg, (w.published.snapshot.active? alg).isSome → w.store.HasActive alg

theorem Rotated.backed {kid : String} (h : Rotated outside alg w (.ok kid) w') (hw : w.published.Settled)
    (hb : Backed w) : w'.published.Settled ∧ Backed w' ∧ (w'.published.snapshot.active? alg).isSome ∧
      ∀ other, (w.published.snapshot.active? other).isSome → (w'.published.snapshot.active? other).isSome := by
  have hcurrent := h.current hw
  refine ⟨hcurrent.settled, fun _ => hcurrent.active_iff.mp, hcurrent.active_iff.mpr h.hasActive, ?_⟩
  exact fun other hsome => hcurrent.active_iff.mpr (h.evolves.active other (hb other hsome))

/-- The algorithms that are rotated had no active key when it all began, and are different ones. If all goes well
each algorithm of the list has an active key, and so has each that had one before. -/
structure FilledGaps (algs : List Alg) (w : World) (calls : List RotationCall)
    (outcome : Except KeyError (List Alg)) (w' : World) : Prop where
  inactive : ∀ c ∈ calls, w.published.snapshot.active? c.alg = none
  nodup : (calls.map RotationCall.alg).Nodup
  active : ∀ rotated, outcome = .ok rotated → ∀ alg,
    alg ∈ algs ∨ (w.published.snapshot.active? alg).isSome → (w'.published.snapshot.active? alg).isSome

theorem Filling.filledGaps {outcome : Except KeyError (List Alg)} (h : Filling outside w algs calls outcome w')
    (hw : w.published.Settled) (hb : Backed w) : FilledGaps algs w calls outcome w' := by
  induction h with
  | done w => exact ⟨nofun, .nil, fun _ _ alg hsome => hsome.resolve_left nofun⟩
  | @skip w w' alg more calls outcome hsome _ ih =>
    obtain ⟨hinactive, hnodup, hactive⟩ := ih hw hb
    refine ⟨hinactive, hnodup, fun rotated hok other hother => hactive rotated hok other ?_⟩
    rcases hother with hmem | hother
    · rcases List.mem_cons.mp hmem with rfl | hmem
      · exact .inr hsome
      · exact .inl hmem
    · exact .inr hother
  | @failed c more error _ hnone _ =>
    exact ⟨List.forall_mem_singleton.mpr hnone, List.nodup_singleton _, nofun⟩
  | @made c kid more calls outcome w' ho hnone hkid _ ih =>
    obtain ⟨hsettled, hbacked, hsome, hkept⟩ := (hkid ▸ RotationCall.rotated_of ho).backed hw hb
    obtain ⟨hinactive, hnodup, hactive⟩ := ih hsettled hbacked
    constructor
    case inactive =>
      refine List.forall_mem_cons.mpr ⟨hnone, fun d hd => Option.not_isSome_iff_eq_none.mp fun hbefore => ?_⟩
      exact Option.not_isSome_iff_eq_none.mpr (hinactive d hd) (hkept d.alg hbefore)
    case nodup =>
      refine List.nodup_cons.mpr ⟨fun hmem => ?_, hnodup⟩
      obtain ⟨d, hd, halg⟩ := List.mem_map.mp hmem
      rw [← halg, hinactive d hd] at hsome
      cases hsome
    case active =>
      intro rotated hok other hother
      cases outcome with
      | error error => cases hok
      | ok later =>
        refine hactive later rfl other ?_
        rcases hother with hmem | hother
        · rcases List.mem_cons.mp hmem with rfl | hmem
          · exact .inr hsome
          · exact .inl hmem
        · exact .inr (hkept other hother)

theorem Chain.rotateCalls (h : Chain outside w calls w') (hok : ∀ c ∈ calls, ∃ kid, c.outcome = .ok kid) :
    w'.rotateCalls = w.rotateCalls + calls.length := by
  induction h with
  | nil w => rfl
  | cons _ _ ih =>
    obtain ⟨⟨kid, hkid⟩, hmore⟩ := List.forall_mem_cons.mp hok
    rw [ih hmore, RotationCall.rotateCalls_after hkid, List.length_cons]
    omega

/-- If keys are made without a failure, an algorithm is rotated if it had no active key in use when it all began,
once and by one call to the store, in the order of the list, and all of the list have an active key after that.
Otherwise the failure is that of the last rotation: those before it have taken effect, none is tried for the rest
of the list, and the records of all other algorithms are as before. The manager is one whose keys in use are not
the last trace of their algorithms in the store, and whose reloads are numbered one by one. -/
theorem initial_keys_are_made_once (outside : Outside) (algs : List Alg) (w : World)
    (hw : w.published.Settled) (hb : Backed w) :
    let outcome := ((initKeys algs).run outside w).1
    let w' := ((initKeys algs).run outside w).2
    (∀ rotated, outcome = .ok rotated →
      rotated.Sublist algs ∧ rotated.Nodup ∧
      (∀ alg ∈ rotated, w.published.snapshot.active? alg = none) ∧
      (∀ alg ∈ algs, (w'.published.snapshot.active? alg).isSome) ∧
      w'.rotateCalls = w.rotateCalls + rotated.length ∧
      ∃ calls, Chain outside w calls w' ∧ calls.map RotationCall.alg = rotated ∧
        ∀ c ∈ calls, c.after.rotateCalls = c.before.rotateCalls + 1 ∧
          ∃ kid, c.outcome = .ok kid ∧ TookEffect c.alg kid w w') ∧
    ∀ error, outcome = .error error →
      ∃ former c before after, Chain outside w (former ++ [c]) w' ∧ c.outcome = .error error ∧
        algs = before ++ c.alg :: after ∧ (former.map RotationCall.alg).Sublist before ∧
        (∀ d ∈ former, ∃ kid, d.outcome = .ok kid ∧ TookEffect d.alg kid w w') ∧
        ∀ alg, alg ≠ c.alg → alg ∉ former.map RotationCall.alg → Store.SameOf alg w.store w'.store := by
  intro outcome w'
  obtain ⟨calls, (hfilling : Filling outside w algs calls outcome w')⟩ := initKeys_filling outside algs w
  have hchain := hfilling.chain
  obtain ⟨hinactive, hnodup, hactive⟩ := hfilling.filledGaps hw hb
  constructor
  · intro rotated hok
    obtain ⟨rfl, hsub, hall⟩ := (hok ▸ hfilling).returned
    refine ⟨hsub, hnodup, List.forall_mem_map.mpr hinactive, fun alg hmem => hactive _ hok alg (.inl hmem), ?_,
      calls, hchain, rfl, fun c hc => ?_⟩
    · rw [List.length_map]
      exact hchain.rotateCalls hall
    · obtain ⟨kid, hkid⟩ := hall c hc
      exact ⟨RotationCall.rotateCalls_after hkid, kid, hkid, hchain.tookEffect hnodup hc hkid⟩
  · intro error herror
    obtain ⟨former, c, before, after, rfl, hc, halgs, hsub, hformer⟩ := (herror ▸ hfilling).stopped
    refine ⟨former, c, before, after, hchain, hc, halgs, hsub, fun d hd => ?_, fun alg hne hn => ?_⟩
    · obtain ⟨kid, hkid⟩ := hformer d hd
      exact ⟨kid, hkid, hchain.tookEffect hnodup (List.mem_append_left _ hd) hkid⟩
    · refine hchain.sameOf fun hmem => ?_
      rw [List.map_append, List.mem_append] at hmem
      exact hmem.elim hn fun hlast => hne (List.mem_singleton.mp hlast)

/-- An algorithm that is named twice, on an empty store. -/
theorem initial_key_named_twice_is_made_once :
    let run := (initKeys [.rs256, .rs256]).run (failingFrom 100) (World.fresh .empty)
    run.1 = .ok [.rs256] ∧ run.2.rotateCalls = 1 ∧ (run.2.published.snapshot.active? .rs256).isSome := by
  intro run
  have hbacked : Backed (World.fresh .empty) := by
    intro alg hsome
    cases hsome
  have hmade : run.1 = .ok [.rs256] := eq_ok_of_toOption (by decide +kernel)
  obtain ⟨-, -, -, hactive, hcalls, -⟩ := (initial_keys_are_made_once (failingFrom 100) [.rs256, .rs256]
    (World.fresh .empty) Published.settled_fresh hbacked).1 [.rs256] hmade
  exact ⟨hmade, hcalls, hactive .rs256 List.mem_cons_self⟩

end Keyring.Manager
