import Keyring.Proofs.KeyId.Text
import Keyring.Proofs.Manager.AtRest
import Keyring.Proofs.Manager.StartUp

set_option autoImplicit false

namespace Keyring

theorem Snapshot.exists_ofRecords {e : Encryptor} {records : List Record}
    (h : ∀ r ∈ records, ∃ key, CachedKey.ofRecord e r = .ok key) : ∃ s, (ofRecords e records).1 = .ok s := by
  obtain ⟨ks, hks⟩ : ∃ ks, List.Forall₂ (fun r k => CachedKey.ofRecord e r = .ok k) records ks := by
    induction records with
    | nil => exact ⟨[], .nil⟩
    | cons r records ih =>
      obtain ⟨k, hk⟩ := h r List.mem_cons_self
      obtain ⟨ks, hks⟩ := ih fun r' hr' => h r' (List.mem_cons_of_mem r hr')
      exact ⟨k :: ks, .cons hk hks⟩
  exact ⟨_, (extend_eq_ok_iff e .empty _ records).mpr ⟨ks, hks, rfl⟩⟩

namespace Manager

namespace Action

variable {α β : Type} {outside : Outside} {w : World}

/-- The action, run by itself, gives a result and not a failure. -/
def Returns (outside : Outside) (a : Action α) (w : World) (expected : α → World → Prop) : Prop :=
  ∃ x w', a.run outside w = (.ok x, w') ∧ expected x w'

theorem Returns.bind {a : Action α} {f : α → Action β} {expected : β → World → Prop}
    (h : a.Returns outside w fun x w' => (f x).Returns outside w' expected) :
    (a >>= f).Returns outside w expected := by
  obtain ⟨x, w₁, ha, y, w₂, hf, hexpected⟩ := h
  refine ⟨y, w₂, ?_, hexpected⟩
  rw [run_bind, ha]
  exact hf

theorem Returns.mono {a : Action α} {expected expected' : α → World → Prop}
    (h : a.Returns outside w expected) (hw : ∀ x w', expected x w' → expected' x w') :
    a.Returns outside w expected' :=
  let ⟨x, w', ha, hexpected⟩ := h
  ⟨x, w', ha, hw x w' hexpected⟩

theorem Returns.attempt {a : Action α} {expected : Except KeyError α → World → Prop}
    (h : a.Returns outside w fun x w' => expected (.ok x) w') : a.attempt.Returns outside w expected := by
  obtain ⟨x, w', ha, hexpected⟩ := h
  exact ⟨.ok x, w', by rw [run_attempt, ha], hexpected⟩

theorem Returns.runs {a : Action α} {inv : World → Prop} {expected : α → World → Prop}
    {expected' : Except KeyError α → World → Prop} (h : a.Returns outside w expected)
    (hr : a.Runs outside inv w expected') :
    a.Returns outside w fun x w' => expected x w' ∧ expected' (.ok x) w' := by
  obtain ⟨x, w', ha, hexpected⟩ := h
  have hend := hr.ends
  rw [ha] at hend
  exact ⟨x, w', ha, hexpected, hend⟩

theorem Returns.withPolicy {policy : Policy} {a : Action α} {expected : α → World → Prop}
    (h : a.Returns (Outside.under policy outside) w expected) : (a.withPolicy policy).Returns outside w expected := by
  obtain ⟨x, w', ha, hexpected⟩ := h
  exact ⟨x, w', (run_withPolicy policy outside a w).trans ha, hexpected⟩

theorem Returns.of_run {a : Action α} {expected : α → World → Prop}
    (h : a.Returns outside w fun x w' => a.run outside w = (.ok x, w') → expected x w') :
    a.Returns outside w expected := by
  obtain ⟨x, w', ha, hexpected⟩ := h
  exact ⟨x, w', ha, hexpected ha⟩

theorem returns_pure {x : α} {expected : α → World → Prop} (h : expected x w) :
    (Action.pure x).Returns outside w expected := ⟨x, w, rfl, h⟩

theorem returns_ofExcept {x : Except KeyError α} {y : α} {expected : α → World → Prop} (hx : x = .ok y)
    (h : expected y w) : (ofExcept x).Returns outside w expected := ⟨y, w, by rw [hx]; rfl, h⟩

theorem returns_ask {c : Call α} {expected : α → World → Prop}
    (h : expected (c.perform (outside w.moment) w).1 (c.perform (outside w.moment) w).2) :
    (ask c).Returns outside w expected := ⟨_, _, rfl, h⟩

theorem returns_list {records : List Record} {expected : List Record → World → Prop}
    (hl : (outside w.moment).list w.store = .ok records)
    (h : expected records { w.tick with listCalls := w.listCalls + 1 }) :
    list.Returns outside w expected := .bind (returns_ask (returns_ofExcept hl h))

theorem returns_rotateStore {new : Record} {old : Option Record} {s : Store} {expected : Unit → World → Prop}
    (hr : (outside w.moment).rotate w.store new old = .ok s) (h : expected () { refusal w with store := s }) :
    (rotateStore new old).Returns outside w expected := by
  refine ⟨(), _, ?_, h⟩
  rw [rotateStore_run, hr]

theorem returns_failPoint {p : FailPoint} {error : KeyError} {expected : Unit → World → Prop}
    (hp : (outside w.moment).isInjected p = false) (h : expected () w.tick) :
    (failPoint p error).Returns outside w expected := by
  refine ⟨(), w.tick, ?_, h⟩
  rw [failPoint_run, hp]
  rfl

end Action

open Manager.Action

variable {outside : Outside} {alg : Alg} {w : World} {config : Config}

/-- No call to the outside fails, and what it has encrypted it decrypts. -/
structure Unfailing (outside : Outside) (config : Config) : Prop where
  list : ∀ moment, (outside moment).listFault = none
  rotate : ∀ moment, (outside moment).rotateFault = none
  injected : ∀ moment point, (outside moment).isInjected point = false
  generate : ∀ moment, ∀ alg ∈ config.algorithms, ∃ key, (outside moment).generate alg = .ok key ∧
    key.alg = alg ∧ key.Regular
  encrypt : ∀ moment plaintext, ∃ sealed,
    (outside moment).encryptor.encrypt (outside moment).nonce plaintext = .ok sealed ∧
      ∀ later, (outside later).encryptor.decrypt sealed = .ok plaintext
  span : config.keyTtl.toNanos ≤ Time.greatestSpan
  expiry : ∀ moment, ((outside moment).now.add? config.keyTtl).isSome

theorem Unfailing.under (h : Unfailing outside config) (policy : Policy) :
    Unfailing (Outside.under policy outside) config :=
  ⟨h.list, h.rotate, h.injected, h.generate, h.encrypt, h.span, h.expiry⟩

def Opens (outside : Outside) (r : Record) : Prop :=
  ∀ moment, ∃ key, CachedKey.ofRecord (outside moment).encryptor r = .ok key

/-- The records of the store can be opened, and it has no record yet with an id that a new key is given. -/
structure Ready (outside : Outside) (config : Config) (s : Store) : Prop where
  opens : ∀ r ∈ s.records, Opens outside r
  free : ∀ alg ∈ config.algorithms, ¬ s.HasActive alg → ∀ moment,
    s.contains (KeyId.ofRandom alg (outside moment).random) = false

theorem Made.opens {key : PrivateKey} {r : Record} (h : Made outside alg key r) (hc : Unfailing outside config)
    (halg : alg ∈ config.algorithms) : Opens outside r := by
  intro later
  obtain ⟨moment, hgenerated⟩ := h.generated
  obtain ⟨moment', der, hder, hencrypted⟩ := h.encrypted
  obtain ⟨generated, hgenerates, hkeyalg, -⟩ := hc.generate moment alg halg
  obtain ⟨sealed, hencrypts, hdecrypts⟩ := hc.encrypt moment' der
  obtain rfl : key = generated := Except.ok.inj (hgenerated.symm.trans hgenerates)
  obtain rfl : sealed = r.encryptedKey := Except.ok.inj (hencrypts.symm.trans hencrypted)
  refine ⟨⟨r, key⟩, CachedKey.ofRecord_eq_ok_iff.mpr ⟨rfl, hkeyalg.trans h.alg_eq.symm, der, ?_⟩⟩
  exact ⟨hdecrypts later, Pkcs8.ofDer_toDer hder⟩

theorem Ready.insert {s : Store} {key : PrivateKey} {new : Record} (h : Ready outside config s)
    (hmade : Made outside alg key new) (hopens : Opens outside new) (hactive : new.isActive = true)
    (hfree : s.contains new.kid = false) : Ready outside config (s.insert new) := by
  constructor
  case opens =>
    intro r hr
    rcases Store.mem_insert_iff.mp hr with rfl | ⟨hr, -⟩
    · exact hopens
    · exact h.opens r hr
  case free =>
    intro alg' halg' hnone moment
    obtain ⟨moment', hkid⟩ := hmade.kid
    have hne : alg' ≠ alg := by
      rintro rfl
      exact hnone ⟨new, Store.mem_insert_self s new, hmade.alg_eq, hactive⟩
    have hkids : new.kid ≠ KeyId.ofRandom alg' (outside moment).random := by
      rw [hkid]
      exact fun heq => hne (KeyId.ofRandom_eq_iff.mp heq).1.symm
    rw [Store.contains_insert_of_ne hkids]
    refine h.free alg' halg' (fun ⟨r, hr, hractive⟩ => hnone ⟨r, ?_, hractive⟩) moment
    exact Store.mem_insert_of_free hfree hr

theorem keyTtl_not_zero (hv : config.validate = .ok ()) : config.keyTtl.isZero = false := by
  unfold Config.validate at hv
  grind

theorem reload_returns_of_opens (hl : (outside w.moment).listFault = none)
    (ho : ∀ r ∈ w.store.records, ∃ key, CachedKey.ofRecord (outside (w.moment + 1)).encryptor r = .ok key) :
    reload.Returns outside w fun _ w' => Reloaded outside w (.ok ()) w' := by
  have hreturns : reload.Returns outside w fun _ _ => True := by
    obtain ⟨records, hrecords⟩ : ∃ records, (outside w.moment).list w.store = .ok records := by
      rw [Setting.list, hl]
      exact ⟨_, rfl⟩
    obtain ⟨s, hs⟩ := Snapshot.exists_ofRecords fun r hr => ho r ((Setting.list_perm hrecords).mem_iff.mp hr)
    refine .bind (.bind (returns_ask (.bind (.attempt (returns_list hrecords (returns_pure ?_))))))
    refine .bind (returns_ofExcept rfl (.bind (.bind (returns_ask (.bind (returns_ask ?_))))))
    exact returns_ofExcept hs (returns_ask trivial)
  exact (hreturns.runs (reload_runs w)).mono fun _ _ h => h.2.1

section returns

variable (hc : Unfailing outside config)
include hc

theorem list_returns (moment : Nat) (s : Store) : ∃ records, (outside moment).list s = .ok records := by
  rw [Setting.list, hc.list moment]
  exact ⟨_, rfl⟩

theorem reload_returns (ho : ∀ r ∈ w.store.records, Opens outside r) :
    reload.Returns outside w fun _ w' => Reloaded outside w (.ok ()) w' :=
  reload_returns_of_opens (hc.list w.moment) fun r hr => ho r hr (w.moment + 1)

theorem grantedTtl_returns (hp : (outside w.moment).policy = config.rotationPolicy)
    (hv : config.validate = .ok ()) : grantedTtl.Returns outside w fun ttl _ => ttl = config.keyTtl := by
  have hresolved : (outside w.moment).policy.resolve = .ok config.keyTtl := by
    simp [hp, Config.rotationPolicy, Policy.fixed, Policy.resolve, keyTtl_not_zero hv]
  refine .bind (returns_ask (.bind (returns_ofExcept hresolved ?_)))
  rw [if_neg (Nat.not_lt.mpr hc.span)]
  exact returns_pure rfl

theorem makeKey_returns (halg : alg ∈ config.algorithms) : (makeKey alg).Returns outside w fun _ _ => True := by
  obtain ⟨key, hkey, -, hregular⟩ := hc.generate w.moment alg halg
  obtain ⟨der, hder⟩ := Pkcs8.exists_toDer hregular
  obtain ⟨sealed, hsealed, -⟩ := hc.encrypt (w.moment + 2) der
  refine .bind (returns_ask (.bind (returns_ofExcept hkey (.bind (returns_ofExcept hder ?_)))))
  exact .bind (returns_failPoint (hc.injected _ _) (.bind (returns_ask (returns_ofExcept hsealed trivial))))

theorem makeRecord_returns (sealed : EncryptedKey) :
    (makeRecord alg config.keyTtl sealed).Returns outside w fun _ _ => True := by
  obtain ⟨expiry, hexpiry⟩ := Option.isSome_iff_exists.mp (hc.expiry w.moment)
  refine .bind (returns_ask ?_)
  simp only [Call.perform, hexpiry]
  exact returns_pure trivial

theorem prepare_returns (hp : ∀ moment, (outside moment).policy = config.rotationPolicy)
    (hv : config.validate = .ok ()) (halg : alg ∈ config.algorithms) :
    (prepare alg).Returns outside w fun _ _ => True := by
  refine .bind ((grantedTtl_returns hc (hp _) hv).mono ?_)
  rintro _ w₁ rfl
  obtain ⟨records, hl⟩ := list_returns hc w₁.moment w₁.store
  refine .bind (returns_list hl (.bind ((makeKey_returns hc halg).mono fun sealed _ _ => ?_)))
  refine .bind ((makeRecord_returns hc sealed).mono fun new _ _ => ?_)
  exact .bind (returns_failPoint (hc.injected _ _) (returns_pure trivial))

theorem rotate_returns (hp : ∀ moment, (outside moment).policy = config.rotationPolicy)
    (hv : config.validate = .ok ()) (halg : alg ∈ config.algorithms) (hr : Ready outside config w.store)
    (hnone : ¬ w.store.HasActive alg) :
    (rotate alg).Returns outside w fun kid w' =>
      Rotated outside alg w (.ok kid) w' ∧ Ready outside config w'.store := by
  have hreturns : (rotate alg).Returns outside w fun _ w' => Ready outside config w'.store := by
    refine .bind (.attempt ?_)
    rw [rotateUnreported_eq]
    refine .bind (.of_run (((prepare_returns hc hp hv halg).runs (prepare_runs alg w)).mono ?_))
    rintro ⟨new, old⟩ w₁ ⟨-, hw₁, hnew⟩ hrun
    obtain ⟨-, hactive, records, hperm, rfl⟩ := hnew new old rfl
    obtain ⟨key, hmade⟩ := prepare_made hrun
    have hlast : Record.newestActive? alg records = none :=
      Record.newestActive?_eq_none_iff.mpr fun a ha haactive => hnone ⟨a, hperm.mem_iff.mp ha, haactive⟩
    have hfree : w₁.store.contains new.kid = false := by
      obtain ⟨moment, hkid⟩ := hmade.kid
      rw [hw₁.store, hkid]
      exact hr.free alg halg hnone moment
    have hstored : (outside w₁.moment).rotate w₁.store new
        ((Record.newestActive? alg records).map Record.deactivated) = .ok (w₁.store.insert new) := by
      simp [Setting.rotate, hc.rotate w₁.moment, hlast, Store.rotate, hfree]
    have hready : Ready outside config (w₁.store.insert new) :=
      (hw₁.store ▸ hr).insert hmade (hmade.opens hc halg) hactive hfree
    -- the reload opens the new record together with those that were there
    refine .bind (returns_rotateStore hstored (.bind (returns_failPoint (hc.injected _ _) (.bind ?_))))
    refine (reload_returns hc hready.opens).mono fun _ w₂ hw₂ => returns_pure ?_
    refine .bind (returns_ask (returns_pure ?_))
    exact (show w₂.store = _ from hw₂.store) ▸ hready
  exact (hreturns.runs (rotate_runs alg w)).mono fun _ _ h => ⟨h.2, h.1⟩

theorem initKeys_returns (hp : ∀ moment, (outside moment).policy = config.rotationPolicy)
    (hv : config.validate = .ok ()) {algs : List Alg} (halgs : ∀ alg ∈ algs, alg ∈ config.algorithms)
    (hr : Ready outside config w.store) (h : Current outside w) :
    (initKeys algs).Returns outside w fun _ _ => True := by
  induction algs generalizing w with
  | nil => exact returns_pure trivial
  | cons alg more ih =>
    have hmore (alg' : Alg) (hmem : alg' ∈ more) := halgs alg' (List.mem_cons_of_mem alg hmem)
    refine .bind (returns_ask ?_)
    simp only [Call.perform]
    by_cases hsome : (w.published.snapshot.active? alg).isSome
    · simp only [hsome, if_true]
      exact ih hmore hr h
    · have hnone : ¬ w.store.HasActive alg := fun ha => hsome (h.active_iff.mpr ha)
      simp only [hsome, if_false, Bool.false_eq_true]
      refine .bind ((rotate_returns hc hp hv (halgs alg List.mem_cons_self) hr hnone).mono ?_)
      rintro kid w₁ ⟨hw₁, hready⟩
      exact .bind ((ih hmore hready (hw₁.current h.settled)).mono fun _ _ _ => returns_pure trivial)

theorem startWith_returns (hv : config.validate = .ok ()) (hr : Ready outside config w.store)
    (hw : w.published.Settled) : (startWith config).Returns outside w fun _ _ => True := by
  have hunder := hc.under config.rotationPolicy
  refine .withPolicy (.bind (returns_ofExcept hv (.bind ((reload_returns hunder hr.opens).mono ?_))))
  intro _ w₁ hw₁
  have hready : Ready (Outside.under config.rotationPolicy outside) config w₁.store :=
    hw₁.store ▸ ⟨hr.opens, hr.free⟩
  refine .bind ((initKeys_returns hunder (fun _ => rfl) hv (fun _ h => h) hready (hw₁.current hw)).mono ?_)
  intro created w₂ _
  split
  · exact returns_pure trivial
  · exact .bind (returns_ask (returns_pure trivial))

end returns

def InUse (w : World) (r : Record) : Prop :=
  r ∈ w.store.records ∧ r.isActive = true ∧
    ∃ key, w.published.snapshot.active? r.alg = some key ∧ key.record = r

/-- Each of the algorithms has a key in use, and exactly one that has been added if there was none before. -/
structure Provided (algs : List Alg) (s : Store) (w : World) : Prop where
  active : ∀ alg ∈ algs, ∃ r, r.alg = alg ∧ InUse w r
  added : ∀ alg ∈ algs, ¬ s.HasActive alg →
    ∃ new, ∀ r, r ∈ w.store.records ∧ r ∉ s.records ∧ r.alg = alg ↔ r = new

theorem Current.inUse (h : Current outside w) (ha : w.store.HasActive alg) : ∃ r, r.alg = alg ∧ InUse w r := by
  obtain ⟨key, hkey⟩ := Option.isSome_iff_exists.mp (h.active_iff.mpr ha)
  obtain ⟨v, v', htaken⟩ := h.taken
  have hnewest := htaken.isNewestActive hkey
  exact ⟨key.record, hnewest.alg_eq, hnewest.mem, hnewest.active, key, hnewest.alg_eq ▸ hkey, rfl⟩

theorem Started.provided {algs created : List Alg} {w' : World} (h : Started outside algs w (.ok created) w') :
    Provided algs w.store w' := by
  obtain ⟨hcurrent, hactive⟩ := h.completed created rfl
  refine ⟨fun alg halg => hcurrent.inUse (hactive alg halg), fun alg halg hnone => ?_⟩
  obtain ⟨new, hnew, hnewalg, hnewactive⟩ := hactive alg halg
  have hadded : new ∉ w.store.records := fun hold => hnone ⟨new, hold, hnewalg, hnewactive⟩
  refine ⟨new, fun r => ⟨fun ⟨hr, hold, hralg⟩ => ?_, ?_⟩⟩
  · exact h.grown.single r hr new hnew hold hadded (hralg.trans hnewalg.symm)
  · rintro rfl
    exact ⟨hnew, hadded, hnewalg⟩

theorem Started.inUse_of_grown {algs created : List Alg} {s : Store} {w' : World} {r : Record}
    (h : Started outside algs w (.ok created) w') (hs : s.Grown Alg.all w.store) (hr : r ∈ w.store.records)
    (hnew : r ∉ s.records) : InUse w' r := by
  have hgrown := hs.trans (h.grown.mono fun alg _ => alg.mem_all)
  have hkept := h.grown.kept r hr
  obtain ⟨-, hactive, -⟩ := hs.added r hr hnew
  obtain ⟨-, v, v', htaken⟩ := (h.completed created rfl).1
  exact ⟨hkept, hactive, htaken.active?_eq fun a => hgrown.only_active hkept hnew⟩

/-- The store is what attempts to start have left of another one, each under circumstances of its own and
stopped where it may. -/
inductive Attempted (store : Store) : Store → Prop where
  | none : Attempted store store
  | more {s : Store} {v : World} (h : Attempted store s) (outside : Outside) (config : Config)
      (hv : (startWith config).Passes outside (World.fresh s) v) : Attempted store v.store

theorem Attempted.grown {store s : Store} (h : Attempted store s) : store.Grown Alg.all s := by
  induction h with
  | none => exact .refl _ _
  | more _ outside config hv ih =>
    have hgrown := (startWith_runs config (World.fresh _) Published.settled_fresh).passes hv
    exact ih.trans (hgrown.mono fun alg _ => alg.mem_all)

/-- A start changes no record and adds at most one for each configured algorithm without an active one,
wherever it stops; it touches nothing if the configuration is refused; and if it goes well each configured
algorithm has a key in use. After attempts that were cut short, a start that goes well also has the keys in
use that they have stored, and it goes well once nothing fails. -/
theorem starts_are_additive_and_resumable (outside : Outside) (store : Store) (config : Config) :
    (∀ v, (startWith config).Passes outside (World.fresh store) v → store.Grown config.algorithms v.store) ∧
    (∀ error, config.validate = .error error →
      (startWith config).run outside (World.fresh store) = (.error error, World.fresh store)) ∧
    (∀ created w, (startWith config).run outside (World.fresh store) = (.ok created, w) →
      Provided config.algorithms store w) ∧
    ∀ s, Attempted store s →
      (∀ created w, (startWith config).run outside (World.fresh s) = (.ok created, w) →
        ∀ r ∈ s.records, r ∉ store.records → InUse w r) ∧
      (Unfailing outside config → config.validate = .ok () → Ready outside config s →
        ∃ created w, (startWith config).run outside (World.fresh s) = (.ok created, w) ∧
          Provided config.algorithms s w) := by
  have hstarted {s : Store} {created : List Alg} {w : World}
      (hrun : (startWith config).run outside (World.fresh s) = (.ok created, w)) :
      Started (Outside.under config.rotationPolicy outside) config.algorithms (World.fresh s) (.ok created) w := by
    have hend := (@startWith_runs outside config (World.fresh s) Published.settled_fresh).ends
    rwa [hrun] at hend
  refine ⟨fun v hv => ?_, fun error herror => ?_, fun created w hrun => (hstarted hrun).provided,
    fun s hs => ⟨fun created w hrun r hr hnew => ?_, fun hc hv hr => ?_⟩⟩
  · exact (startWith_runs config (World.fresh store) Published.settled_fresh).passes hv
  · rw [startWith, run_withPolicy, run_bind, run_ofExcept, herror]
  · exact (hstarted hrun).inUse_of_grown hs.grown hr hnew
  · obtain ⟨created, w, hrun, -⟩ := startWith_returns (w := World.fresh s) hc hv hr Published.settled_fresh
    exact ⟨created, w, hrun, (hstarted hrun).provided⟩

/-- A start under a configuration that names an algorithm twice stops once its first key is stored; the next
one keeps the key. -/
theorem second_start_resumes_first :
    let config : Config := ⟨[.rs256, .rs256], .days 30, .minutes 60⟩
    let stops : Outside := fun _ => { Fleet.Sample.setting with isInjected := fun point => point = .beforeReload }
    let s := ((startWith config).run stops (World.fresh .empty)).2.store
    s.size = 1 ∧ ∃ created w,
      (startWith config).run (fun _ => Fleet.Sample.setting) (World.fresh s) = (.ok created, w) ∧
        Provided config.algorithms s w ∧ ∀ r ∈ s.records, InUse w r := by
  intro config stops s
  have hsize : s.size = 1 := by decide +kernel
  have hactive : ∃ r ∈ s.records, r.alg = .rs256 ∧ r.isActive = true := by decide +kernel
  have hopen : ∀ r ∈ s.records, (CachedKey.ofRecord .plain r).toOption.isSome := by decide +kernel
  have hunfailing : Unfailing (fun _ => Fleet.Sample.setting) config := by
    refine ⟨fun _ => rfl, fun _ => rfl, fun _ _ => rfl, ?_, ?_, by decide, fun _ => by decide⟩
    · intro moment alg halg
      obtain rfl : alg = .rs256 := by simpa [config] using halg
      exact ⟨Fleet.Sample.key, rfl, rfl, Sample.regular⟩
    · exact fun _ plaintext => ⟨⟨[], plaintext⟩, rfl, fun _ => rfl⟩
  have hready : Ready (fun _ => Fleet.Sample.setting) config s := by
    refine ⟨fun r hr moment => ?_, fun alg halg hnone => ?_⟩
    · have hkey := hopen r hr
      cases hopened : CachedKey.ofRecord .plain r with
      | error error =>
        rw [hopened] at hkey
        cases hkey
      | ok key => exact ⟨key, hopened⟩
    · obtain rfl : alg = .rs256 := by simpa [config] using halg
      exact absurd hactive hnone
  have hattempted : Attempted .empty s := .more .none stops config (passes_end _ _)
  obtain ⟨-, -, -, h⟩ := starts_are_additive_and_resumable (fun _ => Fleet.Sample.setting) .empty config
  obtain ⟨hkept, hreturns⟩ := h s hattempted
  obtain ⟨created, w, hrun, hprovided⟩ := hreturns hunfailing rfl hready
  exact ⟨hsize, created, w, hrun, hprovided, fun r hr => hkept created w hrun r hr List.not_mem_nil⟩

end Manager
end Keyring
