import Keyring.Proofs.Fleet.Deeds

set_option autoImplicit false

namespace Keyring.Fleet
open Manager

variable {α β : Type} {allowed : List Deed → Deed → Prop}

/-- The action does nothing that is not allowed, whatever its past. -/
def Always (allowed : List Deed → Deed → Prop) (a : Action α) : Prop :=
  ∀ past, a.Along allowed (fun _ _ => True) past

theorem always_done (outcome : Except KeyError α) : Always allowed (.done outcome) := fun _ => trivial

theorem Always.bind {a : Action α} {f : α → Action β} (h : Always allowed a)
    (hf : ∀ x, Always allowed (f x)) : Always allowed (a >>= f) := by
  refine fun past => .bind ((h past).mono ?_)
  intro now outcome _
  cases outcome with
  | error error => trivial
  | ok x => exact hf x now

theorem Always.attempt {a : Action α} (h : Always allowed a) : Always allowed a.attempt :=
  fun past => .attempt ((h past).mono fun _ _ _ => trivial)

theorem Always.answer {a : Action α} (h : Always allowed a) (f : α → Answer) :
    Always allowed (do return f (← a)) := h.bind fun x => always_done (.ok (f x))

def NoneRotated (events : List Event) : Prop := ∀ kid, .rotated kid ∉ events

/-- The rules let an action ask and report, as long as it does not report a rotation, and they let it
reload and rotate. -/
structure Allowing (allowed : List Deed → Deed → Prop) : Prop where
  observed : ∀ past setting, allowed past (.observed setting)
  read : ∀ past s, allowed past (.read s)
  reported : ∀ past events, NoneRotated events → allowed past (.reported events)
  reload : Always allowed Manager.reload
  rotate : ∀ alg, Always allowed (Manager.rotate alg)

namespace Allowing

variable (h : Allowing allowed)
include h

theorem observe : Always allowed Action.observe :=
  fun past => Action.along_observe fun setting => ⟨h.observed past setting, trivial⟩

theorem snapshot : Always allowed Action.snapshot :=
  fun past => Action.along_snapshot fun s => ⟨h.read past s, trivial⟩

theorem report {events : List Event} (he : NoneRotated events) : Always allowed (Action.report events) :=
  fun past => Action.along_report events ⟨h.reported past events he, trivial⟩

theorem emit {event : Event} (he : ∀ kid, event ≠ .rotated kid) : Always allowed (Action.emit event) :=
  h.report fun kid hk => he kid (List.mem_singleton.mp hk).symm

theorem lookUp (find? : Snapshot → Option CachedKey) {hit miss : Event} (missing : KeyError)
    (hhit : ∀ kid, hit ≠ .rotated kid) (hmiss : ∀ kid, miss ≠ .rotated kid) :
    Always allowed (Manager.lookUp find? hit miss missing) := by
  refine h.snapshot.bind fun s => ?_
  split
  · exact (h.emit hhit).bind fun _ => always_done _
  · have hreload : Always allowed reloadOnMiss := by
      refine h.reload.attempt.bind fun outcome => ?_
      cases outcome with
      | error error => exact h.emit nofun
      | ok _ => exact always_done _
    refine (h.emit hmiss).bind fun _ => hreload.bind fun _ => h.snapshot.bind fun s => ?_
    split <;> exact always_done _

theorem activeKey (alg : Alg) : Always allowed (Manager.activeKey alg) := h.lookUp _ _ nofun nofun

theorem keyById (kid : String) : Always allowed (Manager.keyById kid) := h.lookUp _ _ nofun nofun

theorem rotateEach (algs : List Alg) : Always allowed (Manager.rotateEach algs) := by
  induction algs with
  | nil => exact always_done _
  | cons alg more ih =>
    refine (h.rotate alg).attempt.bind fun outcome => ih.bind fun result => ?_
    cases outcome <;> exact always_done _

theorem rotateExpired : Always allowed Manager.rotateExpired := by
  refine h.observe.bind fun setting => h.snapshot.bind fun s => (h.rotateEach _).bind fun result => ?_
  dsimp only
  split <;> exact always_done _

theorem initKeys (algs : List Alg) : Always allowed (Manager.initKeys algs) := by
  induction algs with
  | nil => exact always_done _
  | cons alg more ih =>
    refine h.snapshot.bind fun s => ?_
    split
    · exact ih
    · exact (h.rotate alg).bind fun kid => ih.bind fun created => always_done _

theorem sign (alg : Alg) (build : String → Except Source Bytes) :
    Always allowed (Manager.sign alg build) := by
  rw [sign_eq]
  exact (h.activeKey alg).bind fun key => always_done _

theorem verify (kid : String) (payload signature : Bytes) :
    Always allowed (Manager.verify kid payload signature) :=
  (h.keyById kid).bind fun _ => always_done _

theorem signCompact (alg : Alg) (claims : Jws.Claims) : Always allowed (Jws.signCompact alg claims) := by
  unfold Jws.signCompact
  split
  · exact always_done _
  · exact (h.sign alg _).bind fun signed => always_done _

theorem verifyCompact (token : String) : Always allowed (Jws.verifyCompact token) := by
  refine (always_done _).bind fun parts => (always_done _).bind fun header => ?_
  split
  · exact always_done _
  · refine (h.keyById _).bind fun key => ?_
    split
    · refine (h.emit ?_).bind fun _ => always_done _
      exact nofun
    · exact (always_done _).bind fun signature => (always_done _).bind fun _ => always_done _

theorem jwks : Always allowed Manager.jwks := by
  refine h.snapshot.bind fun s => (h.report fun kid hk => ?_).bind fun _ => always_done _
  obtain ⟨k, -, heq⟩ := List.mem_map.mp hk
  cases heq

theorem operation (op : Operation) : Always allowed op.action := by
  cases op with
  | reload => exact h.reload.answer _
  | rotate alg => exact (h.rotate alg).answer _
  | rotateExpired => exact h.rotateExpired.answer _
  | initKeys algs => exact (h.initKeys algs).answer _
  | activeKey alg => exact (h.activeKey alg).answer _
  | keyById kid => exact (h.keyById kid).answer _
  | sign alg build => exact (h.sign alg build).answer _
  | verify kid payload signature => exact (h.verify kid payload signature).answer _
  | signCompact alg claims => exact (h.signCompact alg claims).answer _
  | verifyCompact token => exact (h.verifyCompact token).answer _
  | jwks => exact h.jwks.answer _

end Allowing

theorem allowing_lawful : Allowing Lawful where
  observed := fun _ _ => trivial
  read := fun _ _ => trivial
  reported := fun _ _ _ => trivial
  reload := fun past => (reload_along past).mono fun _ _ _ => trivial
  rotate := fun alg past => (rotate_along alg past).mono fun _ _ _ => trivial

theorem Operation.alwaysLawful (op : Operation) : Always Lawful op.action := allowing_lawful.operation op

end Keyring.Fleet
