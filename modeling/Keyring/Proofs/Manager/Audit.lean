import Keyring.Proofs.Manager.AtRest
import Keyring.Proofs.Manager.Command
import Keyring.Proofs.Store.Rotation

/-!
The audit trail. A run is cut at its rotations: between them nothing is stored, and nothing that concerns the
trail is reported. Main statement: every rotation leaves one entry, which says whether it went well; a key that
was stored is named by the entry of its rotation and by no other one, unless the rotation failed after the
store had taken the key in.
-/
set_option autoImplicit false

namespace Keyring

namespace Event

/-- Whether the event belongs to the audit trail. -/
def isAudit (e : Event) : Bool := e.message = "audit_event"

structure Names (e : Event) (kid : String) : Prop where
  audit : e.isAudit = true
  resource : ("audit.resource", kid) ∈ e.fields
  result : ("audit.result", "success") ∈ e.fields

theorem failure_ne_success (error : String) : "failure: " ++ error ≠ "success" := by
  intro h
  have hchars := congrArg (fun s => s.toList.head?) h
  simp at hchars

theorem names_iff {e : Event} {kid : String} : e.Names kid ↔ e = .rotated kid := by
  constructor
  · rintro ⟨haudit, hresource, hresult⟩
    cases e with
    | rotated kid' => simpa [fields, auditFields, eq_comm] using hresource
    | rotationFailed alg error =>
      simp [fields, auditFields, (failure_ne_success error).symm] at hresult
    | _ => simp [isAudit, message] at haudit
  · rintro rfl
    exact ⟨rfl, by simp [fields, auditFields], by simp [fields, auditFields]⟩

end Event

theorem Snapshot.extend_unaudited (e : Encryptor) (s : Snapshot) (records : List Record) :
    ∀ event ∈ (s.extend e records).2, event.isAudit = false := by
  induction records generalizing s with
  | nil => exact fun _ h => absurd h List.not_mem_nil
  | cons r rs ih =>
    unfold extend
    cases CachedKey.ofRecord e r with
    | error error => exact fun _ h => absurd h List.not_mem_nil
    | ok k =>
      intro event hevent
      rcases List.mem_append.mp hevent with hadd | hmore
      · revert hadd
        unfold add
        cases k.isActive with
        | false => exact fun h => absurd h List.not_mem_nil
        | true =>
          cases s.active? k.alg with
          | none => exact fun h => absurd h List.not_mem_nil
          | some other =>
            simp only [elect, if_true]
            split <;> exact fun hadd => List.mem_singleton.mp hadd ▸ rfl
      · exact ih _ event hmore

namespace Store

variable {s s' : Store} {alg : Alg} {kid : String}

theorem contains_iff : s.contains kid = true ↔ ∃ r ∈ s.records, r.kid = kid := by
  constructor
  · intro h
    obtain ⟨r, hr⟩ := Option.isSome_iff_exists.mp h
    exact ⟨r, get?_eq_some_iff.mp hr⟩
  · rintro ⟨r, hr, rfl⟩
    exact contains_of_mem hr

theorem Handover.contains_iff {new : Record} {old : Option Record} (h : s.Handover alg new old s') :
    s'.contains kid = true ↔ kid = new.kid ∨ s.contains kid = true := by
  rw [Store.contains_iff, Store.contains_iff]
  constructor
  · rintro ⟨a, ha, rfl⟩
    rcases (h.mem_iff a).mp ha with rfl | ⟨o, ho, rfl⟩ | ⟨ha, -⟩
    · exact .inl rfl
    · exact .inr ⟨o, (h.old_active o ho).1, rfl⟩
    · exact .inr ⟨a, ha, rfl⟩
  · rintro (rfl | ⟨a, ha, rfl⟩)
    · exact ⟨new, (h.mem_iff new).mpr (.inl rfl), rfl⟩
    · by_cases hold : old = some a
      · exact ⟨a.deactivated, (h.mem_iff _).mpr (.inr (.inl ⟨a, hold, rfl⟩)), rfl⟩
      · exact ⟨a, (h.mem_iff a).mpr (.inr (.inr ⟨ha, hold⟩)), rfl⟩

def Gains (s s' : Store) (kid : String) : Prop := s'.contains kid = true ∧ s.contains kid = false

theorem Handover.gains_iff {new : Record} {old : Option Record} (h : s.Handover alg new old s') :
    s.Gains s' kid ↔ kid = new.kid := by
  constructor
  · rintro ⟨hafter, hbefore⟩
    refine (h.contains_iff.mp hafter).resolve_right fun hstored => ?_
    rw [hbefore] at hstored
    cases hstored
  · rintro rfl
    refine ⟨h.contains_iff.mpr (.inl rfl), Bool.eq_false_iff.mpr fun hstored => ?_⟩
    obtain ⟨a, ha, hkid⟩ := Store.contains_iff.mp hstored
    exact h.new_kid a ha hkid

end Store

namespace Manager

open Manager.Action Fleet

variable {α β : Type} {outside : Outside} {alg : Alg} {kid : String} {w w' v : World}

namespace World

def Entered (w : World) (entries : List Event) (w' : World) : Prop :=
  ∃ events, w'.events = w.events ++ events ∧ events.filter Event.isAudit = entries

theorem Entered.trans {entries more : List Event} (h : w.Entered entries v) (h' : v.Entered more w') :
    w.Entered (entries ++ more) w' := by
  obtain ⟨events, hv, rfl⟩ := h
  obtain ⟨events', hw', rfl⟩ := h'
  exact ⟨events ++ events', by rw [hw', hv, List.append_assoc], List.filter_append ..⟩

/-- Time has passed; nothing is stored and nothing entered in the audit trail. -/
structure Idle (w w' : World) : Prop where
  store : w'.store = w.store
  moment : w.moment ≤ w'.moment
  entered : w.Entered [] w'

namespace Idle

theorem of_events (hs : w'.store = w.store) (hm : w.moment ≤ w'.moment) (he : w'.events = w.events) :
    w.Idle w' := ⟨hs, hm, [], by rw [he, List.append_nil], rfl⟩

theorem refl (w : World) : w.Idle w := .of_events rfl (Nat.le_refl _) rfl

theorem report (w : World) {events : List Event} (h : ∀ event ∈ events, event.isAudit = false) :
    w.Idle (w.report events) := by
  refine ⟨rfl, Nat.le_refl _, events, rfl, List.filter_eq_nil_iff.mpr fun event hevent => ?_⟩
  rw [h event hevent]
  exact nofun

theorem trans (h : w.Idle v) (h' : v.Idle w') : w.Idle w' :=
  ⟨h'.store.trans h.store, Nat.le_trans h.moment h'.moment, h.entered.trans h'.entered⟩

end Idle
end World

def Action.Idles (a : Action α) : Prop := ∀ (outside : Outside) (w : World), w.Idle (a.run outside w).2

section idle

theorem idles_done (outcome : Except KeyError α) : (Action.done outcome).Idles := fun _ w => .refl w

theorem Action.Idles.bind {a : Action α} {f : α → Action β} (h : a.Idles) (hf : ∀ x, (f x).Idles) :
    (a >>= f).Idles := by
  intro outside w
  have ha := h outside w
  rw [run_bind]
  cases hrun : a.run outside w with
  | mk outcome v =>
    rw [hrun] at ha
    cases outcome with
    | error error => exact ha
    | ok x => exact ha.trans (hf x outside v)

theorem Action.Idles.attempt {a : Action α} (h : a.Idles) : a.attempt.Idles := by
  intro outside w
  rw [run_attempt]
  exact h outside w

theorem idles_observe : observe.Idles := fun _ _ => .of_events rfl (Nat.le_succ _) rfl

theorem idles_snapshot : snapshot.Idles := fun _ w => .refl w

theorem idles_report {events : List Event} (h : ∀ event ∈ events, event.isAudit = false) :
    (report events).Idles := fun _ w => .report w h

theorem idles_emit {event : Event} (h : event.isAudit = false) : (emit event).Idles :=
  idles_report fun _ hevent => List.mem_singleton.mp hevent ▸ h

theorem idles_failPoint (p : FailPoint) (error : KeyError) : (failPoint p error).Idles := by
  refine idles_observe.bind fun setting => ?_
  split <;> exact idles_done _

theorem idles_list : list.Idles := by
  have hask : (ask Call.list).Idles := fun _ _ => .of_events rfl (Nat.le_succ _) rfl
  exact hask.bind fun listing => idles_done _

theorem idles_install (generation : Nat) (s : Snapshot) : (install generation s).Idles := by
  intro outside w
  have hpublished : w.Idle { w with published := (w.published.install generation s).1 } :=
    .of_events rfl (Nat.le_refl _) rfl
  refine hpublished.trans (.report _ fun event hevent => ?_)
  obtain rfl : event = (w.published.install generation s).2 := List.mem_singleton.mp hevent
  unfold Published.install
  split <;> rfl

theorem idles_reload : reload.Idles := by
  have htake : takeGeneration.Idles := fun _ _ => .of_events rfl (Nat.le_refl _) rfl
  have hopen (records : List Record) : (openRecords records).Idles := by
    refine idles_observe.bind fun setting => ?_
    exact (idles_report (Snapshot.extend_unaudited _ _ _)).bind fun _ => idles_done _
  refine (htake.bind fun generation => idles_list.attempt.bind fun listing => idles_done _).bind fun ticket => ?_
  exact (idles_done _).bind fun records => (hopen records).bind fun s => idles_install _ _

theorem idles_lookUp (find? : Snapshot → Option CachedKey) {hit miss : Event} (missing : KeyError)
    (hhit : hit.isAudit = false) (hmiss : miss.isAudit = false) : (lookUp find? hit miss missing).Idles := by
  refine idles_snapshot.bind fun s => ?_
  split
  · exact (idles_emit hhit).bind fun _ => idles_done _
  · have hreload : reloadOnMiss.Idles := by
      refine idles_reload.attempt.bind fun outcome => ?_
      cases outcome with
      | error error => exact idles_emit rfl
      | ok _ => exact idles_done _
    refine (idles_emit hmiss).bind fun _ => hreload.bind fun _ => idles_snapshot.bind fun s => ?_
    split <;> exact idles_done _

theorem idles_activeKey (alg : Alg) : (activeKey alg).Idles := idles_lookUp _ _ rfl rfl

theorem idles_keyById (kid : String) : (keyById kid).Idles := idles_lookUp _ _ rfl rfl

theorem idles_sign (alg : Alg) (build : String → Except Source Bytes) : (sign alg build).Idles := by
  rw [sign_eq]
  exact (idles_activeKey alg).bind fun key => idles_done _

theorem idles_signCompact (alg : Alg) (claims : Jws.Claims) : (Jws.signCompact alg claims).Idles := by
  unfold Jws.signCompact
  split
  · exact idles_done _
  · exact (idles_sign alg _).bind fun signed => idles_done _

theorem idles_verifyCompact (token : String) : (Jws.verifyCompact token).Idles := by
  refine (idles_done _).bind fun parts => (idles_done _).bind fun header => ?_
  split
  · exact idles_done _
  · refine (idles_keyById _).bind fun key => ?_
    split
    · exact (idles_emit rfl).bind fun _ => idles_done _
    · exact (idles_done _).bind fun signature => (idles_done _).bind fun _ => idles_done _

theorem idles_jwks : jwks.Idles := by
  refine idles_snapshot.bind fun s => (idles_report fun event hevent => ?_).bind fun _ => idles_done _
  obtain ⟨k, -, rfl⟩ := List.mem_map.mp hevent
  rfl

theorem idles_prepare (alg : Alg) : (prepare alg).Idles := by
  have hgranted : grantedTtl.Idles := by
    refine idles_observe.bind fun setting => (idles_done _).bind fun ttl => ?_
    split <;> exact idles_done _
  have hkey : (makeKey alg).Idles := by
    refine idles_observe.bind fun setting => (idles_done _).bind fun key => (idles_done _).bind fun der => ?_
    exact (idles_failPoint _ _).bind fun _ => idles_observe.bind fun setting => idles_done _
  have hrecord (ttl : Duration) (key : EncryptedKey) : (makeRecord alg ttl key).Idles := by
    refine idles_observe.bind fun setting => ?_
    split <;> exact idles_done _
  refine hgranted.bind fun ttl => idles_list.bind fun records => hkey.bind fun key => ?_
  exact (hrecord ttl key).bind fun record => (idles_failPoint _ _).bind fun _ => idles_done _

theorem idles_publish (kid : String) : (publish kid).Idles :=
  (idles_failPoint _ _).bind fun _ => idles_reload.bind fun _ => idles_done _

end idle

theorem rotateUnreported_entered (outside : Outside) (alg : Alg) (w : World) :
    w.Entered [] ((rotateUnreported alg).run outside w).2 := by
  rw [rotateUnreported_eq, run_bind]
  have hprepared := (idles_prepare alg outside w).entered
  cases hrun : (prepare alg).run outside w with
  | mk outcome v =>
  rw [hrun] at hprepared
  rcases outcome with error | ⟨new, old⟩
  · exact hprepared
  -- the call to the store changes the store, and reports nothing
  simp only [run_bind, rotateStore_run]
  cases (outside v.moment).rotate v.store new (old.map Record.deactivated) with
  | error error =>
    have hasked : v.Entered [] (refusal v) := ⟨[], (List.append_nil _).symm, rfl⟩
    exact hprepared.trans hasked
  | ok store =>
    have hstored : v.Entered [] { refusal v with store := store } := ⟨[], (List.append_nil _).symm, rfl⟩
    exact (hprepared.trans hstored).trans (idles_publish new.kid outside _).entered

/-- One rotation: the answers from outside, the algorithm, and the world in which it begins. -/
structure RotationCall where
  outside : Outside
  alg : Alg
  before : World

namespace RotationCall

def outcome (c : RotationCall) : Except KeyError String := ((rotate c.alg).run c.outside c.before).1

def after (c : RotationCall) : World := ((rotate c.alg).run c.outside c.before).2

def Adds (c : RotationCall) (kid : String) : Prop := c.before.store.Gains c.after.store kid

/-- The entry that the rotation makes in the audit trail. -/
def entry (c : RotationCall) : Event :=
  match c.outcome with
  | .ok kid => .rotated kid
  | .error error => .rotationFailed c.alg error.message

theorem entered (c : RotationCall) : c.before.Entered [c.entry] c.after := by
  have hrun := rotateUnreported_entered c.outside c.alg c.before
  unfold entry outcome after
  rw [rotate, run_bind, run_attempt]
  cases hend : (rotateUnreported c.alg).run c.outside c.before with
  | mk outcome v =>
  rw [hend] at hrun
  cases outcome with
  | error error => exact hrun.trans ⟨[.rotationFailed c.alg error.message], rfl, rfl⟩
  | ok kid => exact hrun.trans ⟨[.rotated kid], rfl, rfl⟩

theorem names_iff {c : RotationCall} : c.entry.Names kid ↔ c.outcome = .ok kid := by
  rw [Event.names_iff, entry]
  cases c.outcome with
  | error error => simp
  | ok kid' => simp

theorem rotated (c : RotationCall) : Rotated c.outside c.alg c.before c.outcome c.after :=
  (rotate_runs c.alg c.before).ends

theorem contains_after (c : RotationCall) (h : c.before.store.contains kid = true) :
    c.after.store.contains kid = true := by
  rcases c.rotated.store_cases with hs | ⟨new, hs⟩
  · exact hs ▸ h
  · obtain ⟨old, hhandover, -⟩ := hs.handover
    exact hhandover.contains_iff.mpr (.inr h)

/-- What the trail tells of a rotation, and what it does not: a key may be stored and not be named. -/
structure Audited (c : RotationCall) : Prop where
  entered : c.before.Entered [c.entry] c.after
  names_iff : ∀ kid, c.entry.Names kid ↔ c.outcome = .ok kid
  adds : ∀ kid, c.outcome = .ok kid → ∀ kid', c.Adds kid' ↔ kid' = kid
  unnamed : ∀ error, c.outcome = .error error → ∀ kid, c.Adds kid →
    ∃ new old, new.kid = kid ∧ Unpublished c.outside c.alg error c.before new old c.after

theorem audited (c : RotationCall) : c.Audited where
  entered := c.entered
  names_iff := fun _ => names_iff
  adds := by
    intro kid hok kid'
    have hend := c.rotated
    rw [hok] at hend
    cases hend with
    | published new s hs _ _ =>
      obtain ⟨old, hhandover, -⟩ := hs.handover
      exact hhandover.gains_iff
  unnamed := by
    intro error herror kid hadds
    obtain ⟨v, hfailed, hv⟩ := rotate_failed (Prod.ext herror rfl : _ = (Except.error error, c.after))
    rcases rotateUnreported_failed hfailed with hintact | ⟨new, old, hunpublished⟩
    · obtain ⟨hafter, hbefore⟩ := hadds
      rw [hv.store.trans hintact.store, hbefore] at hafter
      cases hafter
    · have hstored := hunpublished.of_untouched hv
      exact ⟨new, old, (hstored.handover.gains_iff.mp hadds).symm, hstored⟩

end RotationCall

/-- A way from one world to another that is made of these rotations, with nothing but idle stretches between
them. The policy may be that of a configuration. -/
inductive Trail (outside : Outside) : World → List RotationCall → World → Prop where
  | idle {w w' : World} (h : w.Idle w') : Trail outside w [] w'
  | rotation {w w' : World} {c : RotationCall} {calls : List RotationCall} (h : w.Idle c.before)
      (ho : c.outside = outside ∨ ∃ policy, c.outside = Outside.under policy outside)
      (h' : Trail outside c.after calls w') : Trail outside w (c :: calls) w'

namespace Trail

variable {calls more : List RotationCall}

theorem after_idle (h : w.Idle v) (h' : Trail outside v calls w') : Trail outside w calls w' := by
  cases h' with
  | idle hidle => exact .idle (h.trans hidle)
  | rotation hidle ho h' => exact .rotation (h.trans hidle) ho h'

theorem trans (h : Trail outside w calls v) (h' : Trail outside v more w') :
    Trail outside w (calls ++ more) w' := by
  induction h with
  | idle hidle => exact .after_idle hidle h'
  | rotation hidle ho _ ih => exact .rotation hidle ho (ih h')

theorem of_under {policy : Policy} (h : Trail (Outside.under policy outside) w calls w') :
    Trail outside w calls w' := by
  induction h with
  | idle hidle => exact .idle hidle
  | rotation hidle ho _ ih =>
    refine .rotation hidle (.inr ?_) ih
    rcases ho with ho | ⟨policy', ho⟩
    · exact ⟨policy, ho⟩
    · exact ⟨policy', ho⟩

theorem entered (h : Trail outside w calls w') : w.Entered (calls.map RotationCall.entry) w' := by
  induction h with
  | idle hidle => exact hidle.entered
  | @rotation w w' c calls hidle _ _ ih => exact (hidle.entered.trans c.entered).trans ih

theorem contains (h : Trail outside w calls w') (hkid : w.store.contains kid = true) :
    w'.store.contains kid = true := by
  induction h with
  | idle hidle => exact hidle.store ▸ hkid
  | @rotation w w' c calls hidle _ _ ih => exact ih (c.contains_after (hidle.store ▸ hkid))

theorem gains_iff (h : Trail outside w calls w') : w.store.Gains w'.store kid ↔ ∃ c ∈ calls, c.Adds kid := by
  induction h with
  | idle hidle => simp [Store.Gains, hidle.store]
  | @rotation w w' c calls hidle ho h' ih =>
    rw [List.exists_mem_cons_iff, ← ih, ← hidle.store]
    constructor
    · rintro ⟨hlast, hfirst⟩
      cases hmid : c.after.store.contains kid with
      | true => exact .inl ⟨hmid, hfirst⟩
      | false => exact .inr ⟨hlast, hmid⟩
    · rintro (⟨hmid, hfirst⟩ | ⟨hlast, hmid⟩)
      · exact ⟨h'.contains hmid, hfirst⟩
      · refine ⟨hlast, Bool.eq_false_iff.mpr fun hfirst => ?_⟩
        rw [c.contains_after hfirst] at hmid
        cases hmid

/-- No two of the rotations add a record of the same id. -/
theorem pairwise (h : Trail outside w calls w') :
    calls.Pairwise fun c d => ∀ kid, ¬ (c.Adds kid ∧ d.Adds kid) := by
  induction h with
  | idle _ => exact .nil
  | @rotation w w' c calls _ _ h' ih =>
    refine List.pairwise_cons.mpr ⟨fun d hd kid hadds => ?_, ih⟩
    have hfree := (h'.gains_iff.mpr ⟨d, hd, hadds.2⟩).2
    rw [hadds.1.1] at hfree
    cases hfree

theorem unique {former later : List RotationCall} {c : RotationCall}
    (h : Trail outside w (former ++ c :: later) w') (hc : c.Adds kid) :
    ∀ d ∈ former ++ later, ¬ d.Adds kid ∧ ¬ d.entry.Names kid := by
  obtain ⟨-, hlater, hformer⟩ := List.pairwise_append.mp h.pairwise
  intro d hd
  have hother : ¬ d.Adds kid := by
    intro hadds
    rcases List.mem_append.mp hd with hd | hd
    · exact hformer d hd c List.mem_cons_self kid ⟨hadds, hc⟩
    · exact (List.pairwise_cons.mp hlater).1 d hd kid ⟨hc, hadds⟩
  refine ⟨hother, fun hnames => hother ?_⟩
  exact (d.audited.adds kid (RotationCall.names_iff.mp hnames) kid).mpr rfl

end Trail

def Action.Trails (outside : Outside) (a : Action α) : Prop :=
  ∀ w, ∃ calls, Trail outside w calls (a.run outside w).2

section trails

theorem Action.Idles.trails {a : Action α} (h : a.Idles) : a.Trails outside :=
  fun w => ⟨[], .idle (h outside w)⟩

theorem Action.Trails.bind {a : Action α} {f : α → Action β} (h : a.Trails outside)
    (hf : ∀ x, (f x).Trails outside) : (a >>= f).Trails outside := by
  intro w
  obtain ⟨calls, ha⟩ := h w
  rw [run_bind]
  cases hrun : a.run outside w with
  | mk outcome v =>
    rw [hrun] at ha
    cases outcome with
    | error error => exact ⟨calls, ha⟩
    | ok x =>
      obtain ⟨more, hx⟩ := hf x v
      exact ⟨calls ++ more, ha.trans hx⟩

theorem Action.Trails.attempt {a : Action α} (h : a.Trails outside) : a.attempt.Trails outside := by
  intro w
  rw [run_attempt]
  exact h w

theorem Action.Trails.answer {a : Action α} (h : a.Trails outside) (f : α → Answer) :
    (do return f (← a) : Action Answer).Trails outside := h.bind fun _ => (idles_done _).trails

theorem trails_rotate (alg : Alg) : (rotate alg).Trails outside := fun w =>
  ⟨[⟨outside, alg, w⟩], .rotation (.refl w) (.inl rfl) (.idle (.refl _))⟩

theorem trails_rotateEach (algs : List Alg) : (rotateEach algs).Trails outside := by
  induction algs with
  | nil => exact (idles_done _).trails
  | cons alg more ih =>
    refine (trails_rotate alg).attempt.bind fun outcome => ih.bind fun answer => ?_
    cases outcome <;> exact (idles_done _).trails

theorem trails_rotateExpired : rotateExpired.Trails outside := by
  refine idles_observe.trails.bind fun setting => idles_snapshot.trails.bind fun s => ?_
  refine (trails_rotateEach _).bind fun answer => ?_
  dsimp only
  split <;> exact (idles_done _).trails

theorem trails_initKeys (algs : List Alg) : (initKeys algs).Trails outside := by
  induction algs with
  | nil => exact (idles_done _).trails
  | cons alg more ih =>
    refine idles_snapshot.trails.bind fun s => ?_
    split
    · exact ih
    · exact (trails_rotate alg).bind fun _ => ih.bind fun _ => (idles_done _).trails

theorem trails_startWith (config : Config) : (startWith config).Trails outside := by
  have hstart : (do
      Action.ofExcept config.validate
      reload
      let created ← initKeys config.algorithms
      if created.isEmpty then return created
      else do
        Action.emit (.initialKeys created)
        return created : Action (List Alg)).Trails (Outside.under config.rotationPolicy outside) := by
    refine (idles_done _).trails.bind fun _ => idles_reload.trails.bind fun _ => ?_
    refine (trails_initKeys _).bind fun created => ?_
    split
    · exact (idles_done _).trails
    · exact ((idles_emit rfl).bind fun _ => idles_done _).trails
  intro w
  obtain ⟨calls, h⟩ := hstart w
  rw [run_startWith]
  exact ⟨calls, h.of_under⟩

theorem trails_operation (op : Operation) : op.action.Trails outside := by
  cases op with
  | reload => exact idles_reload.trails.answer _
  | rotate alg => exact (trails_rotate alg).answer _
  | rotateExpired => exact trails_rotateExpired.answer _
  | initKeys algs => exact (trails_initKeys algs).answer _
  | activeKey alg => exact (idles_activeKey alg).trails.answer _
  | keyById kid => exact (idles_keyById kid).trails.answer _
  | sign alg build => exact (idles_sign alg build).trails.answer _
  | verify kid payload signature => exact ((idles_keyById kid).bind fun _ => idles_done _).trails.answer _
  | signCompact alg claims => exact (idles_signCompact alg claims).trails.answer _
  | verifyCompact token => exact (idles_verifyCompact token).trails.answer _
  | jwks => exact idles_jwks.trails.answer _

theorem trails_sweep : Task.sweep.Trails outside := by
  refine trails_rotateExpired.attempt.bind fun outcome => Idles.trails ?_
  cases outcome with
  | error error => exact idles_emit rfl
  | ok rotated =>
    dsimp only
    split
    · exact idles_done _
    · exact idles_emit rfl

theorem trails_command (c : Command) : c.action.Trails outside := by
  cases c with
  | start => exact idles_reload.trails.answer _
  | startWith config => exact (trails_startWith config).answer _
  | operation op => exact trails_operation op
  | sweep => exact trails_sweep.answer _

theorem trail_runAll (outside : Outside) (commands : List Command) (w : World) :
    ∃ calls, Trail outside w calls (runAll outside commands w).2 := by
  induction commands generalizing w with
  | nil => exact ⟨[], .idle (.refl w)⟩
  | cons c more ih =>
    have henter : w.Idle (c.enter w) := by
      cases c <;> exact .of_events rfl (Nat.le_refl _) rfl
    obtain ⟨calls, hc⟩ := trails_command c (c.enter w)
    obtain ⟨later, hmore⟩ := ih (c.run outside w).2
    exact ⟨calls ++ later, (Trail.after_idle henter hc).trans hmore⟩

end trails

/-- Every rotation makes one entry in the audit trail. It names the new key if the rotation has gone well, and
else the algorithm and the failure. A run makes the entries of its rotations and no others. Each id that it
adds to the store is added by one of its rotations, and is named by the entry of no other one; and by the
entry of this one unless it failed after the store had taken the record in. -/
theorem rotations_are_audited :
    (∀ c : RotationCall, c.Audited) ∧ ∀ outside commands w, ∃ calls,
      Trail outside w calls (runAll outside commands w).2 ∧
      w.Entered (calls.map RotationCall.entry) (runAll outside commands w).2 ∧
      (∀ kid, w.store.Gains (runAll outside commands w).2.store kid ↔ ∃ c ∈ calls, c.Adds kid) ∧
      ∀ former c later, calls = former ++ c :: later → ∀ kid, c.Adds kid →
        ∀ d ∈ former ++ later, ¬ d.Adds kid ∧ ¬ d.entry.Names kid := by
  refine ⟨RotationCall.audited, fun outside commands w => ?_⟩
  obtain ⟨calls, h⟩ := trail_runAll outside commands w
  refine ⟨calls, h, h.entered, fun kid => h.gains_iff, fun former c later hcalls kid hc => ?_⟩
  exact (hcalls ▸ h).unique hc

/-- A key whose record cannot be decrypted again is stored, in service for the next reload, and not named. -/
theorem key_in_service_may_be_unnamed : ¬ ∀ outside commands w kid,
    w.store.Gains (runAll outside commands w).2.store kid →
      ∃ event ∈ (runAll outside commands w).2.events, event.Names kid := by
  intro h
  let outside : Outside := fun _ => { Sample.setting with encryptor := .blocked false true }
  let run := runAll outside [.start, .operation (.rotate .rs256)] (World.fresh .empty)
  have hstored : run.2.store.contains "RS256_AAAAAAAAAAAAAAAA" = true := by decide +kernel
  have hfailed : ∀ event ∈ run.2.events, event ≠ .rotated "RS256_AAAAAAAAAAAAAAAA" := by decide +kernel
  obtain ⟨event, hevent, hnames⟩ := h outside [.start, .operation (.rotate .rs256)] (World.fresh .empty)
    "RS256_AAAAAAAAAAAAAAAA" ⟨hstored, rfl⟩
  exact hfailed event hevent (Event.names_iff.mp hnames)

end Manager
end Keyring
