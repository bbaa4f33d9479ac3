import Keyring.Proofs.Manager.Run

/-!
A manager by itself, with its operations one after another. An invariant that reloads and rotations keep
is kept by every operation, wherever it stops.
-/
set_option autoImplicit false

namespace Keyring.Manager

open Manager.Action Fleet

variable {α β : Type} {outside : Outside} {inv : World → Prop}

theorem Action.passes_end (a : Action α) (w : World) : a.Passes outside w (a.run outside w).2 := by
  induction a generalizing w with
  | done outcome => rfl
  | call c next ih => exact .inr (ih _ _)

/-- The world is reached from the other one by operations. One may also be dropped on its way, and
between two of them somebody else may edit the store. -/
inductive Reaches (outside : Outside) (edits : Store → Store → Prop) (w : World) : World → Prop where
  | refl : Reaches outside edits w w
  | operation {v v' : World} (h : Reaches outside edits w v) (op : Operation)
      (hp : op.action.Passes outside v v') : Reaches outside edits w v'
  | edit {v : World} (h : Reaches outside edits w v) (store : Store) (he : edits v.store store) :
      Reaches outside edits w { v with store := store }

theorem Reaches.run {edits : Store → Store → Prop} {w v : World} (h : Reaches outside edits w v)
    (op : Operation) : Reaches outside edits w (op.action.run outside v).2 :=
  h.operation op (op.action.passes_end v)

theorem Reaches.trans {edits : Store → Store → Prop} {w v v' : World} (h : Reaches outside edits w v)
    (h' : Reaches outside edits v v') : Reaches outside edits w v' := by
  induction h' with
  | refl => exact h
  | operation _ op hp ih => exact ih.operation op hp
  | edit _ store he ih => exact ih.edit store he

/-- A property of worlds that reloads and rotations keep, also when they stop on their way. -/
structure Invariant (outside : Outside) (inv : World → Prop) : Prop where
  reloaded : ∀ {w w' outcome}, inv w → Reloaded outside w outcome w' → inv w'
  rotated : ∀ {alg w w' outcome}, inv w → Rotated outside alg w outcome w' → inv w'

def Action.Keeps (outside : Outside) (inv : World → Prop) (a : Action α) : Prop :=
  ∀ w, inv w → a.Runs outside inv w fun _ w' => inv w'

theorem Action.keeps_done (outcome : Except KeyError α) : (Action.done outcome).Keeps outside inv :=
  fun _ h => ⟨h, h⟩

theorem Action.Keeps.bind {a : Action α} {f : α → Action β} (h : a.Keeps outside inv)
    (hf : ∀ x, (f x).Keeps outside inv) : (a >>= f).Keeps outside inv := by
  refine fun w hw => .bind ((h w hw).mono (fun _ hv => hv) fun outcome w' hw' => ?_)
  cases outcome with
  | error error => exact hw'
  | ok x => exact hf x w' hw'

theorem Action.Keeps.attempt {a : Action α} (h : a.Keeps outside inv) : a.attempt.Keeps outside inv :=
  fun w hw => .attempt (h w hw)

namespace Invariant

variable (h : Invariant outside inv)
include h

theorem untouched {w w' : World} (hw : inv w) (hu : w.Untouched w') : inv w' :=
  h.reloaded hw ((Reloaded.refl w default).of_untouched hu)

theorem keeps_quiet {a : Action α} (ha : a.Quiet) : a.Keeps outside inv :=
  fun _ hw => ha.runs (fun _ hv => h.untouched hw hv) fun _ _ hv => h.untouched hw hv

theorem keeps_observe : observe.Keeps outside inv := h.keeps_quiet quiet_observe

theorem keeps_report (events : List Event) : (report events).Keeps outside inv :=
  h.keeps_quiet (quiet_report events)

theorem keeps_snapshot : snapshot.Keeps outside inv := h.keeps_quiet quiet_snapshot

theorem keeps_reload : reload.Keeps outside inv := fun w hw =>
  (reload_runs w).mono (fun _ ⟨_, hv⟩ => h.reloaded hw hv) fun _ _ hv => h.reloaded hw hv.1

theorem keeps_lookUp (find? : Snapshot → Option CachedKey) (hit miss : Event) (missing : KeyError) :
    (lookUp find? hit miss missing).Keeps outside inv := by
  refine fun w hw => .mono (lookUp_runs find? hit miss missing w) ?_ ?_
  · exact fun v ⟨_, hv⟩ => h.reloaded hw hv
  · intro outcome w' hw'
    cases hf : find? w.published.snapshot with
    | some key => exact h.untouched hw (hw'.hit (by simp [hf]))
    | none =>
      have hreload := h.keeps_reload _ (h.untouched hw (.report w [miss]))
      exact h.untouched hreload.ends (hw'.miss hf)

theorem keeps_activeKey (alg : Alg) : (activeKey alg).Keeps outside inv := h.keeps_lookUp _ _ _ _

theorem keeps_keyById (kid : String) : (keyById kid).Keeps outside inv := h.keeps_lookUp _ _ _ _

theorem keeps_rotate (alg : Alg) : (rotate alg).Keeps outside inv := fun w hw =>
  (rotate_runs alg w).mono (fun _ ⟨_, hv⟩ => h.rotated hw hv) fun _ _ hv => h.rotated hw hv

theorem keeps_rotateEach (algs : List Alg) : (rotateEach algs).Keeps outside inv := by
  induction algs with
  | nil => exact keeps_done _
  | cons alg more ih =>
    refine (h.keeps_rotate alg).attempt.bind fun outcome => ih.bind fun answer => ?_
    cases outcome <;> exact keeps_done _

theorem keeps_rotateExpired : rotateExpired.Keeps outside inv := by
  refine h.keeps_observe.bind fun setting => h.keeps_snapshot.bind fun s => ?_
  refine (h.keeps_rotateEach _).bind fun answer => ?_
  cases hf : answer.2.isEmpty <;> simp only [hf] <;> exact keeps_done _

theorem keeps_initKeys (algs : List Alg) : (initKeys algs).Keeps outside inv := by
  induction algs with
  | nil => exact keeps_done _
  | cons alg more ih =>
    refine h.keeps_snapshot.bind fun s => ?_
    split
    · exact ih
    · exact (h.keeps_rotate alg).bind fun _ => ih.bind fun _ => keeps_done _

theorem keeps_sign (alg : Alg) (build : String → Except Source Bytes) :
    (sign alg build).Keeps outside inv := by
  rw [sign_eq]
  exact (h.keeps_activeKey alg).bind fun key => keeps_done _

theorem keeps_signCompact (alg : Alg) (claims : Jws.Claims) :
    (Jws.signCompact alg claims).Keeps outside inv := by
  unfold Jws.signCompact
  cases claims.write with
  | error source => exact keeps_done _
  | ok claims => exact (h.keeps_sign alg _).bind fun _ => keeps_done _

theorem keeps_verifyCompact (token : String) : (Jws.verifyCompact token).Keeps outside inv := by
  refine (keeps_done _).bind fun parts => (keeps_done _).bind fun header => ?_
  cases Alg.ofName? header.alg with
  | none => exact keeps_done _
  | some alg =>
    refine (h.keeps_keyById header.kid).bind fun key => ?_
    split
    · exact (h.keeps_report _).bind fun _ => keeps_done _
    · exact (keeps_done _).bind fun _ => (keeps_done _).bind fun _ => keeps_done _

theorem keeps_operation (op : Operation) : op.action.Keeps outside inv := by
  cases op with
  | reload => exact h.keeps_reload.bind fun _ => keeps_done _
  | rotate alg => exact (h.keeps_rotate alg).bind fun _ => keeps_done _
  | rotateExpired => exact h.keeps_rotateExpired.bind fun _ => keeps_done _
  | initKeys algs => exact (h.keeps_initKeys algs).bind fun _ => keeps_done _
  | activeKey alg => exact (h.keeps_activeKey alg).bind fun _ => keeps_done _
  | keyById kid => exact (h.keeps_keyById kid).bind fun _ => keeps_done _
  | sign alg build => exact (h.keeps_sign alg build).bind fun _ => keeps_done _
  | verify kid payload signature =>
    exact ((h.keeps_keyById kid).bind fun _ => keeps_done _).bind fun _ => keeps_done _
  | signCompact alg claims => exact (h.keeps_signCompact alg claims).bind fun _ => keeps_done _
  | verifyCompact token => exact (h.keeps_verifyCompact token).bind fun _ => keeps_done _
  | jwks =>
    refine (h.keeps_snapshot.bind fun s => ?_).bind fun _ => keeps_done _
    exact (h.keeps_report _).bind fun _ => keeps_done _

theorem reaches {edits : Store → Store → Prop} {w v : World} (hr : Reaches outside edits w v)
    (hw : inv w) (he : ∀ v store, inv v → edits v.store store → inv { v with store := store }) :
    inv v := by
  induction hr with
  | refl => exact hw
  | operation _ op hp ih => exact (h.keeps_operation op _ ih).passes hp
  | edit _ store hedit ih => exact he _ store ih hedit

end Invariant
end Keyring.Manager
