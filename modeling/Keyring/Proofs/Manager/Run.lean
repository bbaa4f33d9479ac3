import Keyring.Fleet
import Keyring.Proofs.Store.Handover

/-!
What the parts of an operation do when it runs by itself. `Runs` says which worlds an action passes
through and how it comes out. Each action has one lemma that says everything that it may do to the
store and to what is published, wherever it stops. A rotation is cut at its call to the store: before it
nothing changes, and after it only what is published.
-/
set_option autoImplicit false

namespace Keyring.Manager

namespace World

structure Untouched (w w' : World) : Prop where
  store : w'.store = w.store
  published : w'.published = w.published
  listCalls : w'.listCalls = w.listCalls
  rotateCalls : w'.rotateCalls = w.rotateCalls
  moment : w.moment ≤ w'.moment

namespace Untouched

theorem refl (w : World) : w.Untouched w := ⟨rfl, rfl, rfl, rfl, Nat.le_refl _⟩

theorem trans {w w' w'' : World} (h : w.Untouched w') (h' : w'.Untouched w'') : w.Untouched w'' :=
  ⟨h'.store.trans h.store, h'.published.trans h.published, h'.listCalls.trans h.listCalls,
    h'.rotateCalls.trans h.rotateCalls, Nat.le_trans h.moment h'.moment⟩

theorem tick (w : World) : w.Untouched w.tick := ⟨rfl, rfl, rfl, rfl, Nat.le_succ _⟩

theorem report (w : World) (events : List Event) : w.Untouched (w.report events) :=
  ⟨rfl, rfl, rfl, rfl, Nat.le_refl _⟩

end Untouched

structure Intact (w w' : World) : Prop where
  store : w'.store = w.store
  published : w'.published = w.published
  moment : w.moment ≤ w'.moment

theorem Intact.trans {w w' w'' : World} (h : w.Intact w') (h' : w'.Intact w'') : w.Intact w'' :=
  ⟨h'.store.trans h.store, h'.published.trans h.published, Nat.le_trans h.moment h'.moment⟩

theorem Untouched.intact {w w' : World} (h : w.Untouched w') : w.Intact w' :=
  ⟨h.store, h.published, h.moment⟩

end World

namespace Action

variable {α β : Type} {outside : Outside} {inv : World → Prop} {w : World}

/-- The action, run by itself, passes through such worlds only and ends as expected. -/
def Runs (outside : Outside) (inv : World → Prop) :
    Action α → World → (Except KeyError α → World → Prop) → Prop
  | .done outcome, w, expected => inv w ∧ expected outcome w
  | .call c next, w, expected => inv w ∧
      (next (c.perform (outside w.moment) w).1).Runs outside inv
        (c.perform (outside w.moment) w).2 expected

/-- The world is one that the action, run by itself from the other one, passes through. -/
def Passes (outside : Outside) : Action α → World → World → Prop
  | .done _, w, v => v = w
  | .call c next, w, v => v = w ∨
      (next (c.perform (outside w.moment) w).1).Passes outside (c.perform (outside w.moment) w).2 v

theorem Runs.ends {a : Action α} {expected : Except KeyError α → World → Prop}
    (h : a.Runs outside inv w expected) : expected (a.run outside w).1 (a.run outside w).2 := by
  induction a generalizing w with
  | done outcome => exact h.2
  | call c next ih => exact ih _ h.2

theorem Runs.passes {a : Action α} {expected : Except KeyError α → World → Prop}
    (h : a.Runs outside inv w expected) {v : World} (hv : a.Passes outside w v) : inv v := by
  induction a generalizing w with
  | done outcome => exact hv ▸ h.1
  | call c next ih =>
    rcases hv with rfl | hv
    · exact h.1
    · exact ih _ h.2 hv

theorem Runs.mono {inv' : World → Prop} {a : Action α}
    {expected expected' : Except KeyError α → World → Prop} (h : a.Runs outside inv w expected)
    (hi : ∀ v, inv v → inv' v) (hw : ∀ outcome w', expected outcome w' → expected' outcome w') :
    a.Runs outside inv' w expected' := by
  induction a generalizing w with
  | done outcome => exact ⟨hi _ h.1, hw _ _ h.2⟩
  | call c next ih => exact ⟨hi _ h.1, ih _ h.2⟩

theorem Runs.of_run {a : Action α} {expected : Except KeyError α → World → Prop}
    (h : a.Runs outside inv w fun outcome w' => (outcome, w') = a.run outside w → expected outcome w') :
    a.Runs outside inv w expected := by
  induction a generalizing w with
  | done outcome => exact ⟨h.1, h.2 rfl⟩
  | call c next ih => exact ⟨h.1, ih _ h.2⟩

theorem Runs.bind {a : Action α} {f : α → Action β} {expected : Except KeyError β → World → Prop}
    (h : a.Runs outside inv w fun outcome w' => match outcome with
      | .error error => expected (.error error) w'
      | .ok x => (f x).Runs outside inv w' expected) : (a >>= f).Runs outside inv w expected := by
  induction a generalizing w with
  | done outcome =>
    cases outcome with
    | error error => exact h
    | ok x => exact h.2
  | call c next ih => exact ⟨h.1, ih _ h.2⟩

theorem Runs.attempt {a : Action α} {expected : Except KeyError (Except KeyError α) → World → Prop}
    (h : a.Runs outside inv w fun outcome w' => expected (.ok outcome) w') :
    a.attempt.Runs outside inv w expected := by
  induction a generalizing w with
  | done outcome => exact h
  | call c next ih => exact ⟨h.1, ih _ h.2⟩

theorem runs_done {outcome : Except KeyError α} {expected : Except KeyError α → World → Prop}
    (hi : inv w) (h : expected outcome w) : (Action.done outcome).Runs outside inv w expected := ⟨hi, h⟩

section calls

theorem runs_observe {expected : Except KeyError Setting → World → Prop} (hi : ∀ v, w.Untouched v → inv v)
    (h : expected (.ok (outside w.moment)) w.tick) : observe.Runs outside inv w expected :=
  ⟨hi w (.refl w), hi _ (.tick w), h⟩

theorem runs_report {events : List Event} {expected : Except KeyError Unit → World → Prop}
    (hi : ∀ v, w.Untouched v → inv v) (h : expected (.ok ()) (w.report events)) :
    (report events).Runs outside inv w expected := ⟨hi w (.refl w), hi _ (.report w events), h⟩

theorem runs_snapshot {expected : Except KeyError Snapshot → World → Prop} (hi : inv w)
    (h : expected (.ok w.published.snapshot) w) : snapshot.Runs outside inv w expected := ⟨hi, hi, h⟩

theorem runs_takeGeneration {expected : Except KeyError Nat → World → Prop} (hi : inv w)
    (hi' : inv { w with published := w.published.issue.2 })
    (h : expected (.ok w.published.nextGeneration) { w with published := w.published.issue.2 }) :
    takeGeneration.Runs outside inv w expected := ⟨hi, hi', h⟩

theorem runs_list {expected : Except KeyError (List Record) → World → Prop} (hi : inv w)
    (hi' : inv { w.tick with listCalls := w.listCalls + 1 })
    (h : expected ((outside w.moment).list w.store) { w.tick with listCalls := w.listCalls + 1 }) :
    list.Runs outside inv w expected := by
  refine .bind ⟨hi, hi', ?_⟩
  exact ⟨hi', h⟩

theorem runs_install {generation : Nat} {s : Snapshot} {expected : Except KeyError Unit → World → Prop}
    (hi : inv w)
    (hi' : inv ({ w with published := (w.published.install generation s).1 }.report
      [(w.published.install generation s).2]))
    (h : expected (.ok ()) ({ w with published := (w.published.install generation s).1 }.report
      [(w.published.install generation s).2])) :
    (install generation s).Runs outside inv w expected := ⟨hi, hi', h⟩

def refusal (w : World) : World := { w.tick with rotateCalls := w.rotateCalls + 1 }

theorem runs_rotateStore {new : Record} {old : Option Record}
    {expected : Except KeyError Unit → World → Prop} (hi : inv w)
    (hr : ∀ error, (outside w.moment).rotate w.store new old = .error error →
      inv (refusal w) ∧ expected (.error error) (refusal w))
    (hs : ∀ store, (outside w.moment).rotate w.store new old = .ok store →
      inv { refusal w with store := store } ∧ expected (.ok ()) { refusal w with store := store }) :
    (rotateStore new old).Runs outside inv w expected := by
  refine .bind ⟨hi, ?_⟩
  cases h : (outside w.moment).rotate w.store new old with
  | error error =>
    simp only [Call.perform, h]
    exact ⟨(hr error h).1, hr error h⟩
  | ok store =>
    simp only [Call.perform, h]
    exact ⟨(hs store h).1, hs store h⟩

end calls

/-- The action asks for the setting and reports, and does nothing else. -/
def Quiet (a : Action α) : Prop := ∀ outside w, a.Runs outside (w.Untouched ·) w fun _ w' => w.Untouched w'

theorem quiet_done (outcome : Except KeyError α) : (Action.done outcome).Quiet :=
  fun _ w => ⟨.refl w, .refl w⟩

theorem quiet_observe : observe.Quiet := fun _ w => runs_observe (fun _ h => h) (.tick w)

theorem quiet_report (events : List Event) : (report events).Quiet :=
  fun _ w => runs_report (fun _ h => h) (.report w events)

theorem quiet_snapshot : snapshot.Quiet := fun _ w => runs_snapshot (.refl w) (.refl w)

theorem Quiet.bind {a : Action α} {f : α → Action β} (h : a.Quiet) (hf : ∀ x, (f x).Quiet) :
    (a >>= f).Quiet := by
  refine fun outside w => .bind ((h outside w).mono (fun _ h => h) ?_)
  intro outcome w' hw
  cases outcome with
  | error error => exact hw
  | ok x => exact (hf x outside w').mono (fun _ => hw.trans) fun _ _ => hw.trans

theorem quiet_failPoint (p : FailPoint) (error : KeyError) : (failPoint p error).Quiet := by
  refine quiet_observe.bind fun setting => ?_
  split <;> exact quiet_done _

theorem Quiet.runs {a : Action α} (h : a.Quiet) {expected : Except KeyError α → World → Prop}
    (hi : ∀ v, w.Untouched v → inv v) (hw : ∀ outcome w', w.Untouched w' → expected outcome w') :
    a.Runs outside inv w expected := (h outside w).mono hi hw

end Action

open Manager.Action

variable {outside : Outside}

theorem Setting.list_perm {s : Setting} {store : Store} {records : List Record}
    (h : s.list store = .ok records) : records.Perm store.records := by
  unfold Setting.list at h
  split at h
  · cases h
  · cases h
    exact s.arrangement.perm _

theorem Setting.rotate_eq_ok {s : Setting} {store store' : Store} {new : Record} {old : Option Record}
    (h : s.rotate store new old = .ok store') : store.rotate new old = .ok store' := by
  unfold Setting.rotate at h
  split at h
  · cases h
  · split at h
    · cases h
    · cases h
      assumption

/-- A snapshot of the records of a store, opened at a moment between two worlds. -/
def TakenBetween (outside : Outside) (w w' : World) (store : Store) (s : Snapshot) : Prop :=
  ∃ moment records events, w.moment ≤ moment ∧ moment < w'.moment ∧ records.Perm store.records ∧
    Snapshot.ofRecords (outside moment).encryptor records = (.ok s, events)

theorem TakenBetween.mono {w₁ w₂ w w' : World} {store : Store} {s : Snapshot}
    (h : TakenBetween outside w₁ w₂ store s) (hw : w.moment ≤ w₁.moment) (hw' : w₂.moment ≤ w'.moment) :
    TakenBetween outside w w' store s := by
  obtain ⟨moment, records, events, h₁, h₂, hs⟩ := h
  exact ⟨moment, records, events, Nat.le_trans hw h₁, Nat.lt_of_lt_of_le h₂ hw', hs⟩

namespace Published

structure Kept (p p' : Published) : Prop where
  snapshot : p'.snapshot = p.snapshot
  generation : p'.generation = p.generation
  nextGeneration : p.nextGeneration ≤ p'.nextGeneration

theorem Kept.issue (p : Published) : p.Kept p.issue.2 := ⟨rfl, rfl, Nat.le_succ _⟩

theorem Kept.of_eq {p p' : Published} (h : p' = p) : p.Kept p' := by
  subst h
  exact ⟨rfl, rfl, Nat.le_refl _⟩

def reloaded (p : Published) (s : Snapshot) : Published := (p.issue.2.install p.nextGeneration s).1

theorem reloaded_snapshot (p : Published) (s : Snapshot) :
    (p.reloaded s).snapshot = s ∨ (p.reloaded s).snapshot = p.snapshot := by
  unfold reloaded install
  split
  · exact .inr rfl
  · exact .inl rfl

/-- No number of a reload has been given out twice, so that a reload which runs by itself is installed. -/
def Settled (p : Published) : Prop := p.generation < p.nextGeneration

theorem settled_fresh : fresh.Settled := Nat.zero_lt_one

theorem Settled.of_kept {p p' : Published} (h : p.Settled) (hk : p.Kept p') : p'.Settled := by
  unfold Settled
  rw [hk.generation]
  exact Nat.lt_of_lt_of_le h hk.nextGeneration

theorem Settled.reloaded_eq {p : Published} (h : p.Settled) (s : Snapshot) :
    p.reloaded s = ⟨p.nextGeneration, s, p.nextGeneration + 1⟩ := by
  simp [reloaded, install, issue, Nat.not_lt.mpr (Nat.le_of_lt h)]

theorem Settled.reloaded {p : Published} (h : p.Settled) (s : Snapshot) : (p.reloaded s).Settled := by
  rw [h.reloaded_eq]
  exact Nat.lt_succ_self _

end Published

/-- What a reload does, also when it stops on its way: the store is listed at most once and stays as it
is. If all goes well a snapshot of the store is in use, unless one of a later number was; otherwise the
snapshot in use stays. -/
structure Reloaded (outside : Outside) (w : World) (outcome : Except KeyError Unit) (w' : World) :
    Prop where
  store : w'.store = w.store
  listCalls : w'.listCalls ≤ w.listCalls + 1
  rotateCalls : w'.rotateCalls = w.rotateCalls
  moment : w.moment ≤ w'.moment
  published : (∃ error, outcome = .error error ∧ w.published.Kept w'.published) ∨
    (outcome = .ok () ∧ ∃ s, TakenBetween outside w w' w.store s ∧ w'.published = w.published.reloaded s)

theorem Reloaded.refl (w : World) (error : KeyError) : Reloaded outside w (.error error) w :=
  ⟨rfl, Nat.le_succ _, rfl, Nat.le_refl _, .inl ⟨error, rfl, .of_eq rfl⟩⟩

theorem Reloaded.of_untouched {w w₁ w' : World} {outcome : Except KeyError Unit}
    (h : Reloaded outside w outcome w₁) (hw : w₁.Untouched w') : Reloaded outside w outcome w' := by
  refine ⟨hw.store.trans h.store, hw.listCalls ▸ h.listCalls, hw.rotateCalls.trans h.rotateCalls,
    Nat.le_trans h.moment hw.moment, ?_⟩
  rw [hw.published]
  refine h.published.imp_right fun ⟨hok, s, hs, hp⟩ => ⟨hok, s, ?_, hp⟩
  exact hs.mono (Nat.le_refl _) hw.moment

theorem Reloaded.after_untouched {w w₁ w' : World} {outcome : Except KeyError Unit}
    (hw : w.Untouched w₁) (h : Reloaded outside w₁ outcome w') : Reloaded outside w outcome w' := by
  refine ⟨h.store.trans hw.store, hw.listCalls ▸ h.listCalls, h.rotateCalls.trans hw.rotateCalls,
    Nat.le_trans hw.moment h.moment, ?_⟩
  rw [← hw.published, ← hw.store]
  refine h.published.imp_right fun ⟨hok, s, hs, hp⟩ => ⟨hok, s, ?_, hp⟩
  exact hs.mono hw.moment (Nat.le_refl _)

theorem openRecords_runs (records : List Record) (w : World) :
    (openRecords records).Runs outside (w.Untouched ·) w fun outcome w' => w.Untouched w' ∧
      ∃ moment events, w.moment ≤ moment ∧ moment < w'.moment ∧
        Snapshot.ofRecords (outside moment).encryptor records = (outcome, events) := by
  have hw := (World.Untouched.tick w).trans
    (.report _ (Snapshot.ofRecords (outside w.moment).encryptor records).2)
  refine .bind (runs_observe (fun _ h => h) (.bind (runs_report ?_ ?_)))
  · exact fun v hv => (World.Untouched.tick w).trans hv
  · exact ⟨hw, hw, w.moment, _, Nat.le_refl _, Nat.lt_succ_self _, rfl⟩

structure Begun (w : World) (ticket : Ticket) (w' : World) : Prop where
  store : w'.store = w.store
  published : w'.published = w.published.issue.2
  listCalls : w'.listCalls = w.listCalls + 1
  rotateCalls : w'.rotateCalls = w.rotateCalls
  moment : w.moment ≤ w'.moment
  generation : ticket.generation = w.published.nextGeneration
  listing : ∀ records, ticket.listing = .ok records → records.Perm w.store.records

theorem Begun.stopped {w w' : World} {ticket : Ticket} (h : Begun w ticket w') (error : KeyError) :
    Reloaded outside w (.error error) w' :=
  ⟨h.store, Nat.le_of_eq h.listCalls, h.rotateCalls, h.moment, .inl ⟨error, rfl, h.published ▸ .issue _⟩⟩

theorem beginReload_runs (w : World) :
    beginReload.Runs outside (fun v => ∃ outcome, Reloaded outside w outcome v) w fun outcome w' =>
      ∃ ticket, outcome = .ok ticket ∧ Begun w ticket w' := by
  have hissued (calls moment : Nat) (hcalls : calls ≤ w.listCalls + 1) (hm : w.moment ≤ moment) :
      ∃ outcome, Reloaded outside w outcome
        { w with published := w.published.issue.2, listCalls := calls, moment := moment } :=
    ⟨.error default, rfl, hcalls, rfl, hm, .inl ⟨_, rfl, .issue _⟩⟩
  have hlisted := hissued _ _ (Nat.le_refl _) (Nat.le_succ _)
  have hbegun := hissued _ _ (Nat.le_succ _) (Nat.le_refl _)
  refine .bind (runs_takeGeneration ⟨_, .refl w default⟩ hbegun (.bind (.attempt (runs_list hbegun hlisted ?_))))
  exact ⟨hlisted, _, rfl, rfl, rfl, rfl, rfl, Nat.le_succ _, rfl, fun _ h => Setting.list_perm h⟩

theorem reload_runs (w : World) :
    reload.Runs outside (fun v => ∃ outcome, Reloaded outside w outcome v) w fun outcome w' =>
      Reloaded outside w outcome w' ∧ w'.listCalls = w.listCalls + 1 := by
  refine .bind ((beginReload_runs w).mono (fun _ h => h) ?_)
  rintro _ w₁ ⟨⟨generation, listing⟩, rfl, hbegun⟩
  have hstopped (error : KeyError) : Reloaded outside w (.error error) w₁ := hbegun.stopped error
  cases listing with
  | error error => exact ⟨⟨_, hstopped error⟩, hstopped error, hbegun.listCalls⟩
  | ok records =>
    refine .bind (runs_done ⟨_, hstopped default⟩ (.bind ((openRecords_runs records w₁).mono ?_ ?_)))
    · exact fun v hv => ⟨_, (hstopped default).of_untouched hv⟩
    rintro outcome w₂ ⟨hw, moment, events, hfrom, hto, hopen⟩
    have hl := hw.listCalls.trans hbegun.listCalls
    cases outcome with
    | error error => exact ⟨(hstopped error).of_untouched hw, hl⟩
    | ok s =>
      have hdone : Reloaded outside w (.ok ()) ({ w₂ with published :=
          (w₂.published.install generation s).1 }.report [(w₂.published.install generation s).2]) := by
        refine ⟨hw.store.trans hbegun.store, Nat.le_of_eq hl, hw.rotateCalls.trans hbegun.rotateCalls,
          Nat.le_trans hbegun.moment hw.moment, .inr ⟨rfl, s, ?_, ?_⟩⟩
        · exact ⟨moment, records, events, Nat.le_trans hbegun.moment hfrom, hto, hbegun.listing records rfl, hopen⟩
        have hg : generation = w.published.nextGeneration := hbegun.generation
        simp [World.report, hw.published, hbegun.published, Published.reloaded, hg]
      exact runs_install ⟨_, (hstopped default).of_untouched hw⟩ ⟨_, hdone⟩ ⟨hdone, hl⟩

theorem reloadOnMiss_runs (w : World) :
    reloadOnMiss.Runs outside (fun v => ∃ outcome, Reloaded outside w outcome v) w fun outcome w' =>
      outcome = .ok () ∧ (reload.run outside w).2.Untouched w' := by
  refine .bind (.attempt (.of_run ((reload_runs w).mono (fun _ h => h) ?_)))
  rintro outcome w₁ ⟨hw₁, -⟩ hrun
  rw [← hrun]
  cases outcome with
  | error error =>
    exact runs_report (fun v hv => ⟨_, hw₁.of_untouched hv⟩) ⟨rfl, .report _ _⟩
  | ok _ => exact ⟨⟨_, hw₁⟩, rfl, .refl _⟩

/-- What a look-up finds: in the snapshot in use, or if it is not there in the one after a reload. -/
def found? (outside : Outside) (find? : Snapshot → Option CachedKey) (miss : Event) (w : World) :
    Option CachedKey :=
  (find? w.published.snapshot).or
    (find? (reload.run outside (w.report [miss])).2.published.snapshot)

/-- What a look-up does: it asks for nothing if the snapshot in use has what is looked for, and otherwise
reloads. -/
structure LookedUp (outside : Outside) (find? : Snapshot → Option CachedKey) (miss : Event)
    (missing : KeyError) (w : World) (outcome : Except KeyError CachedKey) (w' : World) : Prop where
  outcome : outcome = (found? outside find? miss w).elim (.error missing) .ok
  hit : (find? w.published.snapshot).isSome → w.Untouched w'
  miss : find? w.published.snapshot = none →
    (reload.run outside (w.report [miss])).2.Untouched w'

theorem lookUp_run_of_hit {find? : Snapshot → Option CachedKey} {w : World} {k : CachedKey}
    (h : find? w.published.snapshot = some k) (outside : Outside) (hit miss : Event) (missing : KeyError) :
    (lookUp find? hit miss missing).run outside w = (.ok k, w.report [hit]) := by
  have hsnapshot : snapshot.run outside w = (.ok w.published.snapshot, w) := rfl
  rw [lookUp, run_bind, hsnapshot]
  simp only [h]
  rfl

theorem lookUp_runs (find? : Snapshot → Option CachedKey) (hit miss : Event) (missing : KeyError)
    (w : World) :
    (lookUp find? hit miss missing).Runs outside (fun v => ∃ outcome, Reloaded outside w outcome v) w
      (LookedUp outside find? miss missing w) := by
  have hstart {v : World} (hv : w.Untouched v) : ∃ outcome, Reloaded outside w outcome v :=
    ⟨_, (Reloaded.refl w default).of_untouched hv⟩
  refine .bind (runs_snapshot (hstart (.refl w)) ?_)
  cases h : find? w.published.snapshot with
  | some key =>
    have hw : LookedUp outside find? miss missing w (.ok key) (w.report [hit]) :=
      ⟨by simp [found?, h], fun _ => .report _ _, by simp [h]⟩
    simp only [h]
    exact .bind (runs_report (fun v hv => hstart hv) ⟨hstart (.report _ _), hw⟩)
  | none =>
    simp only [h]
    refine .bind (runs_report (fun v hv => hstart hv) (.bind ((reloadOnMiss_runs _).mono ?_ ?_)))
    · rintro v ⟨outcome, hv⟩
      exact ⟨outcome, hv.after_untouched (.report _ _)⟩
    rintro _ w₁ ⟨rfl, hw⟩
    have hend := (@reload_runs outside (w.report [miss])).ends.1
    have hpassed : ∃ outcome, Reloaded outside w outcome w₁ :=
      ⟨_, (hend.after_untouched (.report _ _)).of_untouched hw⟩
    have hfound : found? outside find? miss w = find? w₁.published.snapshot := by
      rw [found?, h, Option.none_or, hw.published]
    refine .bind (runs_snapshot hpassed ?_)
    have hdone : LookedUp outside find? miss missing w
        ((find? w₁.published.snapshot).elim (.error missing) .ok) w₁ :=
      ⟨by rw [hfound], by simp [h], fun _ => hw⟩
    cases hf : find? w₁.published.snapshot with
    | some key =>
      simp only [hf] at hdone ⊢
      exact ⟨hpassed, hdone⟩
    | none =>
      simp only [hf] at hdone ⊢
      exact ⟨hpassed, hdone⟩

theorem grantedTtl_quiet : grantedTtl.Quiet := by
  refine quiet_observe.bind fun setting => (quiet_done _).bind fun ttl => ?_
  split <;> exact quiet_done _

theorem makeKey_quiet (alg : Alg) : (makeKey alg).Quiet := by
  refine quiet_observe.bind fun setting => (quiet_done _).bind fun key => (quiet_done _).bind fun der => ?_
  exact (quiet_failPoint _ _).bind fun _ => quiet_observe.bind fun setting => quiet_done _

theorem makeRecord_runs (alg : Alg) (ttl : Duration) (key : EncryptedKey) (w : World) :
    (makeRecord alg ttl key).Runs outside (w.Untouched ·) w fun outcome w' => w.Untouched w' ∧
      ∀ record, outcome = .ok record → record.alg = alg ∧ record.isActive = true := by
  refine .bind (runs_observe (fun _ h => h) ?_)
  cases hexpiry : (outside w.moment).now.add? ttl with
  | none =>
    simp only [hexpiry]
    exact ⟨.tick w, .tick w, nofun⟩
  | some expiry =>
    simp only [hexpiry]
    refine ⟨.tick w, .tick w, fun record h => ?_⟩
    cases h
    exact ⟨rfl, rfl⟩

/-- What a rotation does, also when it stops on its way: nothing; or it has the store take in a record and
does not get as far as to publish it; or it publishes it. -/
inductive Rotated (outside : Outside) (alg : Alg) (w : World) : Except KeyError String → World → Prop where
  | refused {w' : World} (error : KeyError) (store : w'.store = w.store)
      (published : w'.published = w.published) : Rotated outside alg w (.error error) w'
  | unpublished {w' : World} (error : KeyError) (new : Record)
      (store : w.store.HandedIn alg new w'.store) (published : w.published.Kept w'.published) :
      Rotated outside alg w (.error error) w'
  | published {w' : World} (new : Record) (s : Snapshot) (store : w.store.HandedIn alg new w'.store)
      (snapshot : TakenBetween outside w w' w'.store s)
      (published : w'.published = w.published.reloaded s) : Rotated outside alg w (.ok new.kid) w'

theorem Rotated.store_cases {alg : Alg} {w w' : World} {outcome : Except KeyError String}
    (h : Rotated outside alg w outcome w') :
    w'.store = w.store ∨ ∃ new, w.store.HandedIn alg new w'.store := by
  cases h with
  | refused error hs _ => exact .inl hs
  | unpublished error new hs _ => exact .inr ⟨new, hs⟩
  | published new s hs _ _ => exact .inr ⟨new, hs⟩

theorem Rotated.of_untouched {alg : Alg} {w w₁ w' : World} {outcome : Except KeyError String}
    (h : Rotated outside alg w outcome w₁) (hw : w₁.Untouched w') : Rotated outside alg w outcome w' := by
  cases h with
  | refused error store published =>
    exact .refused error (hw.store.trans store) (hw.published.trans published)
  | unpublished error new store published =>
    exact .unpublished error new (hw.store ▸ store) (hw.published ▸ published)
  | published new s store snapshot published =>
    refine .published new s (hw.store ▸ store) ?_ (hw.published.trans published)
    exact hw.store ▸ snapshot.mono (Nat.le_refl _) hw.moment

theorem Rotated.of_reloaded {alg : Alg} {w w₁ w' : World} {new : Record} {outcome : Except KeyError Unit}
    (hs : w.store.HandedIn alg new w₁.store) (hp : w₁.published = w.published)
    (hm : w.moment ≤ w₁.moment) (h : Reloaded outside w₁ outcome w') :
    Rotated outside alg w (outcome.map fun _ => new.kid) w' := by
  rw [← h.store] at hs
  rcases h.published with ⟨error, rfl, hkept⟩ | ⟨rfl, s, hsnapshot, hpublished⟩
  · exact .unpublished error new hs (hp ▸ hkept)
  · rw [← h.store] at hsnapshot
    exact .published new s hs (hsnapshot.mono hm (Nat.le_refl _)) (hp ▸ hpublished)

/-- What a rotation does before it turns to the store: the record that it hands in, and the one in its
listing that it puts out of use. -/
def prepare (alg : Alg) : Action (Record × Option Record) := do
  let ttl ← grantedTtl
  let old := Record.newestActive? alg (← Action.list)
  let key ← makeKey alg
  let record ← makeRecord alg ttl key
  Action.failPoint .beforeStore (.storage (.internal "injected failure before store rotate" .absent))
  return (record, old)

def publish (kid : String) : Action String := do
  Action.failPoint .beforeReload (.internal .beforeReload)
  reload
  return kid

theorem rotateUnreported_eq (alg : Alg) : rotateUnreported alg = (do
    let (new, old) ← prepare alg
    Action.rotateStore new (old.map Record.deactivated)
    publish new.kid) := by
  simp only [rotateUnreported, prepare, publish, bind_assoc, pure_bind]

theorem prepare_runs (alg : Alg) (w : World) :
    (prepare alg).Runs outside (w.Intact ·) w fun outcome w' => w.Intact w' ∧
      ∀ new old, outcome = .ok (new, old) → new.alg = alg ∧ new.isActive = true ∧
        ∃ records, records.Perm w.store.records ∧ old = Record.newestActive? alg records := by
  have hstopped (error : KeyError) {v : World} (hv : w.Intact v) : w.Intact v ∧
      ∀ new old, (.error error : Except KeyError (Record × Option Record)) = .ok (new, old) →
        new.alg = alg ∧ new.isActive = true ∧
          ∃ records, records.Perm w.store.records ∧ old = Record.newestActive? alg records := by
    refine ⟨hv, fun new old h => ?_⟩
    cases h
  refine .bind (grantedTtl_quiet.runs (fun v hv => hv.intact) fun outcome w₁ hw₁ => ?_)
  rcases outcome with error | ttl
  · exact hstopped error hw₁.intact
  have hlisted : w.Intact { w₁.tick with listCalls := w₁.listCalls + 1 } :=
    hw₁.intact.trans ⟨rfl, rfl, Nat.le_succ _⟩
  refine .bind (runs_list hw₁.intact hlisted ?_)
  cases hl : (outside w₁.moment).list w₁.store with
  | error error => exact hstopped error hlisted
  | ok records =>
  have hperm := hw₁.store ▸ Setting.list_perm hl
  refine .bind ((makeKey_quiet alg).runs (fun v hv => hlisted.trans hv.intact) fun outcome w₂ hw₂ => ?_)
  have hmade := hlisted.trans hw₂.intact
  rcases outcome with error | key
  · exact hstopped error hmade
  refine .bind ((makeRecord_runs alg ttl key w₂).mono (fun v hv => hmade.trans hv.intact) ?_)
  rintro outcome w₃ ⟨hw₃, hnew⟩
  have hrecord := hmade.trans hw₃.intact
  rcases outcome with error | new
  · exact hstopped error hrecord
  refine .bind ((quiet_failPoint _ _).runs (fun v hv => hrecord.trans hv.intact) fun outcome w₄ hw₄ => ?_)
  have hready := hrecord.trans hw₄.intact
  rcases outcome with error | _
  · exact hstopped error hready
  obtain ⟨halg, hactive⟩ := hnew new rfl
  refine ⟨hready, hready, fun new' old' heq => ?_⟩
  cases heq
  exact ⟨halg, hactive, records, hperm, rfl⟩

theorem publish_runs (kid : String) (w : World) :
    (publish kid).Runs outside (fun v => ∃ outcome, Reloaded outside w outcome v) w fun outcome w' =>
      ∃ reloaded, outcome = reloaded.map (fun _ => kid) ∧ Reloaded outside w reloaded w' := by
  have hstopped (error : KeyError) {v : World} (hv : w.Untouched v) : Reloaded outside w (.error error) v :=
    (Reloaded.refl w error).of_untouched hv
  refine .bind ((quiet_failPoint _ _).runs (fun v hv => ⟨_, hstopped default hv⟩) fun outcome w₁ hw₁ => ?_)
  rcases outcome with error | _
  · exact ⟨.error error, rfl, hstopped error hw₁⟩
  refine .bind ((reload_runs w₁).mono ?_ ?_)
  · rintro v ⟨outcome, hv⟩
    exact ⟨outcome, hv.after_untouched hw₁⟩
  rintro outcome w₂ ⟨hw₂, -⟩
  have hdone := hw₂.after_untouched hw₁
  cases outcome with
  | error error => exact ⟨.error error, rfl, hdone⟩
  | ok _ => exact ⟨⟨_, hdone⟩, .ok (), rfl, hdone⟩

theorem rotateUnreported_runs (alg : Alg) (w : World) : (rotateUnreported alg).Runs outside
    (fun v => ∃ outcome, Rotated outside alg w outcome v) w (Rotated outside alg w) := by
  have hrefused (error : KeyError) {v : World} (hv : w.Intact v) : Rotated outside alg w (.error error) v :=
    .refused error hv.store hv.published
  rw [rotateUnreported_eq]
  refine .bind ((prepare_runs alg w).mono (fun v hv => ⟨_, hrefused default hv⟩) ?_)
  rintro outcome w₁ ⟨hw₁, hnew⟩
  rcases outcome with error | ⟨new, old⟩
  · exact hrefused error hw₁
  obtain ⟨halg, hactive, records, hperm, rfl⟩ := hnew new old rfl
  have hasked : w.Intact (refusal w₁) := hw₁.trans ⟨rfl, rfl, Nat.le_succ _⟩
  refine .bind (runs_rotateStore ⟨_, hrefused default hw₁⟩ (fun error _ => ?_) fun store hr => ?_)
  · exact ⟨⟨_, hrefused default hasked⟩, hrefused error hasked⟩
  -- from here on the record is stored, and only what is published is still to come
  have hstore : w.store.HandedIn alg new { refusal w₁ with store := store : World }.store :=
    ⟨records, hperm, halg, hactive, hw₁.store ▸ Setting.rotate_eq_ok hr⟩
  have hafter {outcome : Except KeyError Unit} {v : World}
      (hv : Reloaded outside { refusal w₁ with store := store } outcome v) :
      Rotated outside alg w (outcome.map fun _ => new.kid) v :=
    .of_reloaded hstore hasked.published hasked.moment hv
  refine ⟨⟨_, hafter (.refl _ default)⟩, (publish_runs new.kid _).mono ?_ ?_⟩
  · rintro v ⟨outcome, hv⟩
    exact ⟨_, hafter hv⟩
  · rintro outcome v ⟨reloaded, rfl, hv⟩
    exact hafter hv

theorem rotate_runs (alg : Alg) (w : World) : (rotate alg).Runs outside
    (fun v => ∃ outcome, Rotated outside alg w outcome v) w (Rotated outside alg w) := by
  refine .bind (.attempt ((rotateUnreported_runs alg w).mono (fun _ h => h) fun outcome w₁ hw₁ => ?_))
  have hend (events : List Event) := hw₁.of_untouched (.report w₁ events)
  cases outcome with
  | error error =>
    exact .bind (runs_report (fun v hv => ⟨_, hw₁.of_untouched hv⟩) ⟨⟨_, hend _⟩, hend _⟩)
  | ok kid =>
    exact .bind (runs_report (fun v hv => ⟨_, hw₁.of_untouched hv⟩) ⟨⟨_, hend _⟩, hend _⟩)

end Keyring.Manager
