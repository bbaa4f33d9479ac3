import Keyring.Proofs.Manager.AtRest
import Keyring.Proofs.Manager.Command
import Keyring.Proofs.Manager.WellFormed
import Keyring.Proofs.Snapshot.Alike

/-!
Two runs that differ in their secrets only: in the keys of their records and those that are generated, and in
the encryptors. They are told in parallel, each step of one beside the same step of the other. Every operation
reports the same in both, and leaves like worlds behind.
-/
set_option autoImplicit false

namespace Keyring

def Encryptor.Sound (e : Encryptor) : Prop := ∀ nonce plaintext, nonce.length = nonceLength →
  ∃ sealed, e.encrypt nonce plaintext = .ok sealed ∧ e.decrypt sealed = .ok plaintext

theorem Encryptor.aesGcm_sound (master : MasterKey) : (aesGcm master).Sound :=
  fun nonce plaintext h => ⟨_, rfl, aesGcm_decrypt_close master nonce plaintext h⟩

theorem Encryptor.plain_sound : plain.Sound := fun _ plaintext _ => ⟨⟨[], plaintext⟩, rfl, rfl⟩

namespace Manager

open Manager.Action Fleet

/-- An order of the records that does not depend on the keys in them. -/
def Arrangement.IsBlind (e e' : Encryptor) (a a' : Arrangement) : Prop := ∀ records records',
  List.Forall₂ (Record.Alike e e') records records' →
    List.Forall₂ (Record.Alike e e') (a.arrange records) (a'.arrange records')

theorem Arrangement.byCreation_isBlind (e e' : Encryptor) : byCreation.IsBlind e e' byCreation := by
  intro records records' h
  refine rel_mergeSort (fun r r' q q' hr hq => ?_) h
  simp only [hq.precedes hr]

/-- The same answers from outside at one moment of two runs, but for the secrets. -/
structure Setting.Twin (e e' : Encryptor) (s s' : Setting) : Prop where
  now : s.now = s'.now
  policy : s.policy = s'.policy
  encryptor : Encryptor.Twin e e' s.encryptor s'.encryptor
  nonce : s.nonce = s'.nonce
  nonce_length : s.nonce.length = Encryptor.nonceLength
  random : s.random = s'.random
  generate : ∀ alg, Agree (fun key key' => (key.alg = alg ∧ key.Regular) ∧ key'.alg = alg ∧ key'.Regular)
    (s.generate alg) (s'.generate alg)
  arrangement : Arrangement.IsBlind e e' s.arrangement s'.arrangement
  listFault : s.listFault = s'.listFault
  rotateFault : s.rotateFault = s'.rotateFault
  isInjected : s.isInjected = s'.isInjected

structure World.Alike (e e' : Encryptor) (w w' : World) : Prop where
  store : Store.Alike e e' w.store w'.store
  snapshot : Snapshot.Alike e e' w.published.snapshot w'.published.snapshot
  generation : w.published.generation = w'.published.generation
  nextGeneration : w.published.nextGeneration = w'.published.nextGeneration
  listCalls : w.listCalls = w'.listCalls
  rotateCalls : w.rotateCalls = w'.rotateCalls
  events : w.events = w'.events
  moment : w.moment = w'.moment

structure Twins where
  encryptor : Encryptor
  encryptor' : Encryptor
  outside : Outside
  outside' : Outside
  sound : encryptor.Sound
  sound' : encryptor'.Sound
  twin : ∀ moment, Setting.Twin encryptor encryptor' (outside moment) (outside' moment)

namespace Twins

variable {α β γ δ : Type} {t : Twins}

/-- The two actions, run in like worlds, have such outcomes and end in like worlds. -/
def Parallel (t : Twins) (a : Action α) (b : Action β)
    (expected : Except KeyError α → Except KeyError β → Prop) : Prop :=
  ∀ v w, World.Alike t.encryptor t.encryptor' v w →
    expected (a.run t.outside v).1 (b.run t.outside' w).1 ∧
      World.Alike t.encryptor t.encryptor' (a.run t.outside v).2 (b.run t.outside' w).2

variable {a : Action α} {b : Action β} {f : α → Action γ} {g : β → Action δ} {related : α → β → Prop}
  {expected : Except KeyError γ → Except KeyError δ → Prop}

theorem parallel_done {x : Except KeyError γ} {y : Except KeyError δ} (h : expected x y) :
    t.Parallel (.done x) (.done y) expected := fun _ _ hw => ⟨h, hw⟩

theorem Parallel.bind (h : t.Parallel a b (Agree related))
    (herror : ∀ error, expected (.error error) (.error error))
    (hf : ∀ x y, related x y → t.Parallel (f x) (g y) expected) :
    t.Parallel (a >>= f) (b >>= g) expected := by
  intro v w hw
  obtain ⟨hagree, hafter⟩ := h v w hw
  rw [run_bind, run_bind]
  generalize a.run t.outside v = end₁, b.run t.outside' w = end₂ at hagree hafter
  obtain ⟨outcome, v'⟩ := end₁
  obtain ⟨outcome', w'⟩ := end₂
  cases hagree with
  | error error => exact ⟨herror error, hafter⟩
  | ok hxy => exact hf _ _ hxy v' w' hafter

theorem Parallel.attempt (h : t.Parallel a b (Agree related)) :
    t.Parallel a.attempt b.attempt (Agree (Agree related)) := by
  intro v w hw
  rw [run_attempt, run_attempt]
  exact ⟨.ok (h v w hw).1, (h v w hw).2⟩

theorem Parallel.answer {h₁ : α → γ} {h₂ : β → δ} {related' : γ → δ → Prop}
    (h : t.Parallel a b (Agree related)) (hrelated : ∀ x y, related x y → related' (h₁ x) (h₂ y)) :
    t.Parallel (do return h₁ (← a)) (do return h₂ (← b)) (Agree related') :=
  h.bind .error fun x y hxy => parallel_done (.ok (hrelated x y hxy))

section calls

theorem parallel_observe :
    t.Parallel observe observe (Agree (Setting.Twin t.encryptor t.encryptor')) := by
  intro v w hw
  have htwin := t.twin v.moment
  refine ⟨.ok (hw.moment ▸ htwin), { hw with moment := congrArg Nat.succ hw.moment }⟩

theorem parallel_report {events events' : List Event} (h : events = events') :
    t.Parallel (report events) (report events') (Agree Eq) := by
  subst h
  exact fun v w hw => ⟨.ok rfl, { hw with events := congrArg (· ++ events) hw.events }⟩

theorem parallel_emit {event event' : Event} (h : event = event') :
    t.Parallel (emit event) (emit event') (Agree Eq) := parallel_report (congrArg (fun e => [e]) h)

theorem parallel_snapshot :
    t.Parallel snapshot snapshot (Agree (Snapshot.Alike t.encryptor t.encryptor')) :=
  fun _ _ hw => ⟨.ok hw.snapshot, hw⟩

theorem parallel_takeGeneration : t.Parallel takeGeneration takeGeneration (Agree Eq) := by
  intro v w hw
  exact ⟨.ok hw.nextGeneration, { hw with nextGeneration := congrArg Nat.succ hw.nextGeneration }⟩

theorem parallel_list :
    t.Parallel list list (Agree (List.Forall₂ (Record.Alike t.encryptor t.encryptor'))) := by
  intro v w hw
  have htwin := t.twin v.moment
  have hlisting : Agree (List.Forall₂ (Record.Alike t.encryptor t.encryptor'))
      ((t.outside v.moment).list v.store) ((t.outside' v.moment).list w.store) := by
    unfold Setting.list
    rw [← htwin.listFault]
    cases (t.outside v.moment).listFault with
    | some error => exact .error _
    | none => exact .ok (htwin.arrangement _ _ hw.store)
  have hnow : t.outside' v.moment = t.outside' w.moment := congrArg t.outside' hw.moment
  refine ⟨(hnow ▸ hlisting :), ?_⟩
  exact { hw with moment := congrArg Nat.succ hw.moment, listCalls := congrArg Nat.succ hw.listCalls }

theorem parallel_install {generation generation' : Nat} {s s' : Snapshot} (hg : generation = generation')
    (hs : Snapshot.Alike t.encryptor t.encryptor' s s') :
    t.Parallel (install generation s) (install generation' s') (Agree Eq) := by
  subst hg
  intro v w hw
  refine ⟨.ok rfl, ?_⟩
  show World.Alike _ _
    (({ v with published := (v.published.install generation s).1 } : World).report
      [(v.published.install generation s).2])
    (({ w with published := (w.published.install generation s').1 } : World).report
      [(w.published.install generation s').2])
  unfold Published.install
  rw [hw.generation, hs.size]
  split
  · exact { hw with events := congrArg (· ++ _) hw.events }
  · exact { hw with snapshot := hs, generation := rfl, events := congrArg (· ++ _) hw.events }

theorem parallel_rotateStore {new new' : Record} {old old' : Option Record}
    (hnew : Record.Alike t.encryptor t.encryptor' new new')
    (hold : Option.Rel (Record.Alike t.encryptor t.encryptor') old old') :
    t.Parallel (rotateStore new old) (rotateStore new' old') (Agree Eq) := by
  intro v w hw
  have hrefused : World.Alike t.encryptor t.encryptor' (refusal v) (refusal w) :=
    { hw with moment := congrArg Nat.succ hw.moment, rotateCalls := congrArg Nat.succ hw.rotateCalls }
  have hrotated := hw.store.rotate hnew hold
  rw [rotateStore_run, rotateStore_run, ← hw.moment]
  unfold Setting.rotate
  rw [← (t.twin v.moment).rotateFault]
  cases (t.outside v.moment).rotateFault with
  | some error => exact ⟨.error _, hrefused⟩
  | none =>
    generalize v.store.rotate new old = outcome, w.store.rotate new' old' = outcome' at hrotated
    cases hrotated with
    | error error => exact ⟨.error _, hrefused⟩
    | ok hs => exact ⟨.ok rfl, { hrefused with store := hs }⟩

theorem parallel_failPoint (p : FailPoint) (error : KeyError) :
    t.Parallel (failPoint p error) (failPoint p error) (Agree Eq) := by
  refine parallel_observe.bind .error fun s s' hs => ?_
  rw [hs.isInjected]
  split
  · exact parallel_done (.error error)
  · exact parallel_done (.ok rfl)

end calls

section reloads

theorem parallel_reload : t.Parallel reload reload (Agree Eq) := by
  have hbegin : t.Parallel beginReload beginReload (Agree fun ticket ticket' =>
      ticket.generation = ticket'.generation ∧
        Agree (List.Forall₂ (Record.Alike t.encryptor t.encryptor')) ticket.listing ticket'.listing) := by
    refine parallel_takeGeneration.bind .error fun generation generation' hg => ?_
    exact parallel_list.attempt.answer fun _ _ hlisting => ⟨hg, hlisting⟩
  refine hbegin.bind .error fun ticket ticket' ⟨hgeneration, hlisting⟩ => ?_
  refine (parallel_done hlisting).bind .error fun records records' hrecords => ?_
  have hopen : t.Parallel (openRecords records) (openRecords records')
      (Agree (Snapshot.Alike t.encryptor t.encryptor')) := by
    refine parallel_observe.bind .error fun s s' hs => ?_
    obtain ⟨hsnapshot, hevents⟩ := Snapshot.rel_ofRecords hs.encryptor hrecords
    exact (parallel_report hevents).bind .error fun _ _ _ => parallel_done hsnapshot
  exact hopen.bind .error fun s s' hs => parallel_install hgeneration hs

theorem parallel_lookUp {find? : Snapshot → Option CachedKey} {hit miss : Event} {missing : KeyError}
    (hfind : ∀ s s', Snapshot.Alike t.encryptor t.encryptor' s s' →
      Option.Rel (CachedKey.Alike t.encryptor t.encryptor') (find? s) (find? s')) :
    t.Parallel (lookUp find? hit miss missing) (lookUp find? hit miss missing)
      (Agree (CachedKey.Alike t.encryptor t.encryptor')) := by
  have hmiss : t.Parallel reloadOnMiss reloadOnMiss (Agree Eq) := by
    refine parallel_reload.attempt.bind .error fun outcome outcome' houtcome => ?_
    cases houtcome with
    | error error => exact parallel_emit rfl
    | ok _ => exact parallel_done (.ok rfl)
  refine parallel_snapshot.bind .error fun s s' hs => ?_
  have hfirst := hfind s s' hs
  generalize find? s = found, find? s' = found' at hfirst
  cases hfirst with
  | some hk => exact (parallel_emit rfl).bind .error fun _ _ _ => parallel_done (.ok hk)
  | none =>
    refine (parallel_emit rfl).bind .error fun _ _ _ => hmiss.bind .error fun _ _ _ => ?_
    refine parallel_snapshot.bind .error fun s s' hs => ?_
    have hlast := hfind s s' hs
    generalize find? s = found, find? s' = found' at hlast
    cases hlast with
    | some hk => exact parallel_done (.ok hk)
    | none => exact parallel_done (.error missing)

theorem parallel_activeKey (alg : Alg) : t.Parallel (activeKey alg) (activeKey alg)
    (Agree (CachedKey.Alike t.encryptor t.encryptor')) := parallel_lookUp fun _ _ hs => hs.active? alg

theorem parallel_keyById (kid : String) : t.Parallel (keyById kid) (keyById kid)
    (Agree (CachedKey.Alike t.encryptor t.encryptor')) := parallel_lookUp fun _ _ hs => hs.get? kid

end reloads

section rotations

/-- The sealed key can be opened to one of the algorithm. -/
def Holds (e : Encryptor) (alg : Alg) (sealed : EncryptedKey) : Prop :=
  ∃ der key, e.decrypt sealed = .ok der ∧ Pkcs8.ofDer der = .ok key ∧ key.alg = alg

theorem Holds.opens {e : Encryptor} {r : Record} (h : Holds e r.alg r.encryptedKey) :
    ∃ key, CachedKey.ofRecord e r = .ok key := by
  obtain ⟨der, key, hder, hkey, halg⟩ := h
  exact ⟨⟨r, key⟩, CachedKey.ofRecord_eq_ok_iff.mpr ⟨rfl, halg, der, hder, hkey⟩⟩

theorem exists_sealed {e : Encryptor} (he : e.Sound) {alg : Alg} {key : PrivateKey} {nonce der : Bytes}
    (hn : nonce.length = Encryptor.nonceLength) (hder : Pkcs8.toDer key = .ok der) (halg : key.alg = alg) :
    ∃ sealed, e.encrypt nonce der = .ok sealed ∧ Holds e alg sealed := by
  obtain ⟨sealed, hsealed, hopen⟩ := he nonce der hn
  exact ⟨sealed, hsealed, der, key, hopen, Pkcs8.ofDer_toDer hder, halg⟩

theorem parallel_grantedTtl : t.Parallel grantedTtl grantedTtl (Agree Eq) := by
  refine parallel_observe.bind .error fun s s' hs => ?_
  rw [hs.policy]
  refine (parallel_done (.refl s'.policy.resolve)).bind .error ?_
  rintro ttl _ rfl
  split
  · exact parallel_done (.error _)
  · exact parallel_done (.ok rfl)

theorem parallel_makeKey (alg : Alg) : t.Parallel (makeKey alg) (makeKey alg)
    (Agree fun sealed sealed' => Holds t.encryptor alg sealed ∧ Holds t.encryptor' alg sealed') := by
  refine parallel_observe.bind .error fun s s' hs => (parallel_done (hs.generate alg)).bind .error ?_
  rintro key key' ⟨⟨halg, hregular⟩, halg', hregular'⟩
  obtain ⟨der, hder⟩ := Pkcs8.exists_toDer hregular
  obtain ⟨der', hder'⟩ := Pkcs8.exists_toDer hregular'
  have hencoded : Agree (fun d d' => Pkcs8.toDer key = .ok d ∧ Pkcs8.toDer key' = .ok d')
      (Pkcs8.toDer key) (Pkcs8.toDer key') := by
    rw [hder, hder']
    exact .ok ⟨rfl, rfl⟩
  refine (parallel_done hencoded).bind .error fun d d' ⟨hd, hd'⟩ => ?_
  refine (parallel_failPoint _ _).bind .error fun _ _ _ => parallel_observe.bind .error fun s s' hs => ?_
  obtain ⟨error, hfail⟩ | ⟨hbase, hbase'⟩ := hs.encryptor.encrypt
  · rw [(hfail _ _).1, (hfail _ _).2]
    exact parallel_done (.error error)
  · obtain ⟨sealed, hsealed, hholds⟩ := exists_sealed t.sound hs.nonce_length hd halg
    obtain ⟨sealed', hsealed', hholds'⟩ := exists_sealed t.sound' (hs.nonce ▸ hs.nonce_length) hd' halg'
    rw [hbase, hbase', hsealed, hsealed']
    exact parallel_done (.ok ⟨hholds, hholds'⟩)

theorem parallel_makeRecord (alg : Alg) (ttl : Duration) {sealed sealed' : EncryptedKey}
    (h : Holds t.encryptor alg sealed) (h' : Holds t.encryptor' alg sealed') :
    t.Parallel (makeRecord alg ttl sealed) (makeRecord alg ttl sealed')
      (Agree (Record.Alike t.encryptor t.encryptor')) := by
  refine parallel_observe.bind .error fun s s' hs => ?_
  rw [hs.now, hs.random]
  cases s'.now.add? ttl with
  | none => exact parallel_done (.error _)
  | some expiry => exact parallel_done (.ok ⟨rfl, rfl, rfl, rfl, rfl, Holds.opens h, Holds.opens h'⟩)

theorem parallel_rotate (alg : Alg) : t.Parallel (rotate alg) (rotate alg) (Agree Eq) := by
  have hunreported : t.Parallel (rotateUnreported alg) (rotateUnreported alg) (Agree Eq) := by
    refine parallel_grantedTtl.bind .error ?_
    rintro ttl _ rfl
    refine parallel_list.bind .error fun records records' hrecords => ?_
    have hold : Option.Rel (Record.Alike t.encryptor t.encryptor')
        ((Record.newestActive? alg records).map Record.deactivated)
        ((Record.newestActive? alg records').map Record.deactivated) :=
      rel_map (fun _ _ hr => hr.deactivated) (Record.rel_newestActive? alg hrecords)
    refine (parallel_makeKey alg).bind .error fun sealed sealed' ⟨h, h'⟩ => ?_
    refine (parallel_makeRecord alg ttl h h').bind .error fun new new' hnew => ?_
    refine (parallel_failPoint _ _).bind .error fun _ _ _ => ?_
    refine (parallel_rotateStore hnew hold).bind .error fun _ _ _ => ?_
    refine (parallel_failPoint _ _).bind .error fun _ _ _ => ?_
    exact parallel_reload.bind .error fun _ _ _ => parallel_done (.ok hnew.kid)
  refine hunreported.attempt.bind .error fun outcome outcome' houtcome => ?_
  cases houtcome with
  | error error =>
    exact (parallel_emit rfl).bind .error fun _ _ _ => parallel_done (.error error)
  | ok hkid =>
    subst hkid
    exact (parallel_emit rfl).bind .error fun _ _ _ => parallel_done (.ok rfl)

theorem parallel_rotateEach (algs : List Alg) : t.Parallel (rotateEach algs) (rotateEach algs) (Agree Eq) := by
  induction algs with
  | nil => exact parallel_done (.ok rfl)
  | cons alg more ih =>
    refine (parallel_rotate alg).attempt.bind .error fun outcome outcome' houtcome => ih.bind .error ?_
    rintro ⟨rotated, failures⟩ _ rfl
    cases houtcome with
    | error error => exact parallel_done (.ok rfl)
    | ok _ => exact parallel_done (.ok rfl)

theorem rel_dueAlgs {s s' : Snapshot} (h : Snapshot.Alike t.encryptor t.encryptor' s s') (now : Time) :
    dueAlgs s now = dueAlgs s' now := by
  have hexpired (alg : Alg) : (s.active? alg).any (fun key => key.record.isExpiredAt now) =
      (s'.active? alg).any fun key => key.record.isExpiredAt now :=
    any_eq_of_rel (fun _ _ hk => hk.record.isExpiredAt now) (h.active? alg)
  simp only [dueAlgs, hexpired]

theorem parallel_rotateExpired : t.Parallel rotateExpired rotateExpired (Agree Eq) := by
  refine parallel_observe.bind .error fun setting setting' hs => ?_
  refine parallel_snapshot.bind .error fun s s' hsnapshot => ?_
  rw [hs.now, rel_dueAlgs hsnapshot]
  refine (parallel_rotateEach _).bind .error ?_
  rintro ⟨rotated, failures⟩ _ rfl
  dsimp only
  split
  · exact parallel_done (.ok rfl)
  · exact parallel_done (.error _)

theorem parallel_initKeys (algs : List Alg) : t.Parallel (initKeys algs) (initKeys algs) (Agree Eq) := by
  induction algs with
  | nil => exact parallel_done (.ok rfl)
  | cons alg more ih =>
    refine parallel_snapshot.bind .error fun s s' hs => ?_
    rw [isSome_eq_of_rel (hs.active? alg)]
    split
    · exact ih
    · exact (parallel_rotate alg).bind .error fun _ _ _ => ih.answer fun _ _ h => congrArg (alg :: ·) h

def under (t : Twins) (policy : Policy) : Twins where
  encryptor := t.encryptor
  encryptor' := t.encryptor'
  outside := Outside.under policy t.outside
  outside' := Outside.under policy t.outside'
  sound := t.sound
  sound' := t.sound'
  twin := fun moment => { t.twin moment with policy := rfl }

theorem parallel_startWith (config : Config) :
    t.Parallel (startWith config) (startWith config) (Agree Eq) := by
  intro v w hw
  rw [run_startWith, run_startWith]
  refine (?_ : (t.under config.rotationPolicy).Parallel _ _ (Agree Eq)) v w hw
  refine (parallel_done (.refl config.validate)).bind .error fun _ _ _ => parallel_reload.bind .error fun _ _ _ => ?_
  refine (parallel_initKeys _).bind .error ?_
  rintro created _ rfl
  split
  · exact parallel_done (.ok rfl)
  · exact (parallel_emit rfl).bind .error fun _ _ _ => parallel_done (.ok rfl)

theorem parallel_sweep : t.Parallel Task.sweep Task.sweep (Agree Eq) := by
  refine parallel_rotateExpired.attempt.bind .error fun outcome outcome' houtcome => ?_
  cases houtcome with
  | error error => exact parallel_emit rfl
  | ok halgs =>
    subst halgs
    dsimp only
    split
    · exact parallel_done (.ok rfl)
    · exact parallel_emit rfl

end rotations

section tokens

/-- The action changes nothing. -/
def Still (a : Action α) : Prop := ∀ (outside : Outside) (w : World), (a.run outside w).2 = w

theorem still_done (outcome : Except KeyError α) : Still (.done outcome) := fun _ _ => rfl

theorem Still.bind (h : Still a) (hf : ∀ x, Still (f x)) : Still (a >>= f) := by
  intro outside w
  have ha := h outside w
  rw [run_bind]
  generalize a.run outside w = ended at ha ⊢
  obtain ⟨outcome, v⟩ := ended
  cases outcome with
  | error error => exact ha
  | ok x => exact (hf x outside v).trans ha

theorem parallel_of_still (ha : Still a) (hb : Still b) : t.Parallel a b fun _ _ => True :=
  fun v w hw => ⟨trivial, by rwa [ha, hb]⟩

theorem Parallel.bind_still {expected' : Except KeyError α → Except KeyError β → Prop}
    (h : t.Parallel a b expected') (hf : ∀ x, Still (f x)) (hg : ∀ y, Still (g y)) :
    t.Parallel (a >>= f) (b >>= g) fun _ _ => True := by
  intro v w hw
  have hafter := (h v w hw).2
  refine ⟨trivial, ?_⟩
  rw [run_bind, run_bind]
  generalize a.run t.outside v = end₁, b.run t.outside' w = end₂ at hafter
  obtain ⟨outcome | x, v'⟩ := end₁ <;> obtain ⟨outcome' | y, w'⟩ := end₂
  · exact hafter
  · exact (hg y t.outside' w').symm ▸ hafter
  · exact (hf x t.outside v').symm ▸ hafter
  · show World.Alike _ _ ((f x).run t.outside v').2 ((g y).run t.outside' w').2
    rwa [hf x t.outside v', hg y t.outside' w']

theorem parallel_sign (alg : Alg) (build : String → Except Source Bytes) :
    t.Parallel (sign alg build) (sign alg build) fun _ _ => True := by
  rw [sign_eq]
  exact (parallel_activeKey alg).bind_still (fun key => still_done _) fun key => still_done _

theorem parallel_verify (kid : String) (payload payload' signature signature' : Bytes) :
    t.Parallel (verify kid payload signature) (verify kid payload' signature') fun _ _ => True :=
  (parallel_keyById kid).bind_still (fun _ => still_done _) fun _ => still_done _

theorem parallel_signCompact (alg : Alg) (claims : Jws.Claims) :
    t.Parallel (Jws.signCompact alg claims) (Jws.signCompact alg claims) fun _ _ => True := by
  unfold Jws.signCompact
  split
  · exact parallel_done trivial
  · exact (parallel_sign alg _).bind_still (fun _ => still_done _) fun _ => still_done _

theorem parallel_verifyCompact {token token' : String}
    (h : (Jws.Parts.ofToken token).map Jws.Parts.header = (Jws.Parts.ofToken token').map Jws.Parts.header) :
    t.Parallel (Jws.verifyCompact token) (Jws.verifyCompact token') fun _ _ => True := by
  have hparts : Agree (fun parts parts' => parts.header = parts'.header) (Jws.Parts.ofToken token)
      (Jws.Parts.ofToken token') := by
    generalize Jws.Parts.ofToken token = parts, Jws.Parts.ofToken token' = parts' at h
    cases parts with
    | error error =>
      cases parts' with
      | error error' => exact Except.error.inj h ▸ .error error
      | ok parts' => cases h
    | ok parts =>
      cases parts' with
      | error error' => cases h
      | ok parts' => exact .ok (Except.ok.inj h)
  refine (parallel_done hparts).bind (fun _ => trivial) fun parts parts' hheader => ?_
  rw [hheader]
  refine (parallel_done (.refl (Jws.decodeJson Jws.Header.read .header parts'.header))).bind (fun _ => trivial) ?_
  rintro header _ rfl
  split
  · exact parallel_done trivial
  · refine (parallel_keyById _).bind (fun _ => trivial) fun k k' hk => ?_
    have halg : k.alg = k'.alg := hk.record.alg
    rw [halg]
    split
    · exact (parallel_emit rfl).bind_still (fun _ => still_done _) fun _ => still_done _
    · refine parallel_of_still ?_ ?_
      all_goals exact (still_done _).bind fun _ => (still_done _).bind fun _ => still_done _

theorem parallel_jwks : t.Parallel jwks jwks fun _ _ => True := by
  refine parallel_snapshot.bind (fun _ => trivial) fun s s' hs => ?_
  have hquiet {keys : List CachedKey} (h : ∀ k ∈ keys, k.privateKey.alg = k.record.alg) :
      (JwkSet.ofKeys keys).2 = [] :=
    (JwkSet.ofKeys_entries fun k hk => k.privateKey.alg_publicKey.trans (h k hk)).1
  have hevents : s.jwks.2 = s'.jwks.2 := (hquiet hs.kinds.1).trans (hquiet hs.kinds.2).symm
  exact (parallel_report hevents).bind_still (fun _ => still_done _) fun _ => still_done _

end tokens

end Twins

end Manager
end Keyring
