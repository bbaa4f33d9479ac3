import Keyring.Proofs.Manager.Parallel

set_option autoImplicit false

namespace Keyring.Manager

open Manager.Action Fleet

/-- Two commands that are the same, or differ in what is to be verified: in payload and signature, or in parts
of a token other than its header. -/
inductive Command.Alike : Command → Command → Prop where
  | same (c : Command) : Command.Alike c c
  | verify (kid : String) (payload payload' signature signature' : Bytes) :
      Command.Alike (.operation (.verify kid payload signature)) (.operation (.verify kid payload' signature'))
  | verifyCompact {token token' : String}
      (h : (Jws.Parts.ofToken token).map Jws.Parts.header = (Jws.Parts.ofToken token').map Jws.Parts.header) :
      Command.Alike (.operation (.verifyCompact token)) (.operation (.verifyCompact token'))

def Command.isManaging : Command → Bool
  | .start | .startWith _ | .sweep => true
  | .operation op => match op with
    | .reload | .rotate _ | .rotateExpired | .initKeys _ => true
    | _ => false

def managed (commands : List Command) (outcomes : List (Except KeyError Answer)) : List (Except KeyError Answer) :=
  ((commands.zip outcomes).filter fun p => p.1.isManaging).map Prod.snd

/-- What is written to logs: all that has been reported, and the texts for the manager, its private keys and
its encryptor. -/
structure Logs where
  events : List Event
  manager : String
  keys : List String
  encryptor : String

def World.logs (w : World) : Logs :=
  ⟨w.events, logText w.published.snapshot, w.published.snapshot.keys.map fun k => k.privateKey.logText,
    Encryptor.logText⟩

theorem World.Alike.logs {e e' : Encryptor} {w w' : World} (h : World.Alike e e' w w') : w.logs = w'.logs := by
  have hkeys : w.published.snapshot.keys.map (fun k => k.privateKey.logText) =
      w'.published.snapshot.keys.map fun k => k.privateKey.logText := by
    have halike := h.snapshot.keys
    generalize w.published.snapshot.keys = ks, w'.published.snapshot.keys = ks' at halike
    induction halike with
    | nil => rfl
    | cons hk _ ih => exact congrArg₂ List.cons hk.logText ih
  have hmanager : logText w.published.snapshot = logText w'.published.snapshot := by
    unfold logText
    rw [h.snapshot.size]
  simp only [World.logs, h.events, hmanager, hkeys]

namespace Twins

variable {t : Twins}

def Told (c : Command) (outcome outcome' : Except KeyError Answer) : Prop := c.isManaging = true → outcome = outcome'

theorem Parallel.told {α : Type} {a : Action α} {f : α → Answer} {c : Command} (h : t.Parallel a a (Agree Eq)) :
    t.Parallel (do return f (← a) : Action Answer) (do return f (← a)) (Told c) := by
  have hanswer : t.Parallel (do return f (← a) : Action Answer) (do return f (← a)) (Agree Eq) :=
    h.answer fun _ _ heq => congrArg f heq
  exact fun v w hw => ⟨fun _ => (hanswer v w hw).1.eq, (hanswer v w hw).2⟩

theorem Parallel.untold {α β : Type} {a : Action α} {b : Action β} {f : α → Answer} {g : β → Answer}
    {c : Command} {expected : Except KeyError α → Except KeyError β → Prop} (h : t.Parallel a b expected)
    (hc : c.isManaging = false) : t.Parallel (do return f (← a)) (do return g (← b)) (Told c) := by
  intro v w hw
  refine ⟨fun hmanaging => ?_, (h.bind_still (fun _ => still_done _) (fun _ => still_done _) v w hw).2⟩
  rw [hc] at hmanaging
  cases hmanaging

theorem parallel_command {c c' : Command} (h : c.Alike c') : t.Parallel c.action c'.action (Told c) := by
  cases h with
  | verify kid payload payload' signature signature' =>
    exact (parallel_verify kid payload payload' signature signature').untold rfl
  | verifyCompact h => exact (parallel_verifyCompact h).untold rfl
  | same c =>
    cases c with
    | start => exact parallel_reload.told
    | startWith config => exact (parallel_startWith config).told
    | sweep => exact parallel_sweep.told
    | operation op =>
      cases op with
      | reload => exact parallel_reload.told
      | rotate alg => exact (parallel_rotate alg).told
      | rotateExpired => exact parallel_rotateExpired.told
      | initKeys algs => exact (parallel_initKeys algs).told
      | activeKey alg => exact (parallel_activeKey alg).untold rfl
      | keyById kid => exact (parallel_keyById kid).untold rfl
      | sign alg build => exact (parallel_sign alg build).untold rfl
      | verify kid payload signature => exact (parallel_verify kid payload payload signature signature).untold rfl
      | signCompact alg claims => exact (parallel_signCompact alg claims).untold rfl
      | verifyCompact token => exact (parallel_verifyCompact rfl).untold rfl
      | jwks => exact parallel_jwks.untold rfl

theorem enter_alike {c c' : Command} (h : c.Alike c') {w w' : World}
    (hw : World.Alike t.encryptor t.encryptor' w w') :
    World.Alike t.encryptor t.encryptor' (c.enter w) (c'.enter w') := by
  cases h with
  | verify => exact hw
  | verifyCompact => exact hw
  | same c =>
    cases c with
    | operation op => exact hw
    | sweep => exact hw
    | start | startWith config =>
      exact { hw with snapshot := Snapshot.alike_empty, generation := rfl, nextGeneration := rfl }

theorem run_alike {c c' : Command} (h : c.Alike c') {w w' : World}
    (hw : World.Alike t.encryptor t.encryptor' w w') :
    Told c (c.run t.outside w).1 (c'.run t.outside' w').1 ∧
      World.Alike t.encryptor t.encryptor' (c.run t.outside w).2 (c'.run t.outside' w').2 :=
  parallel_command h _ _ (enter_alike h hw)

theorem isManaging_eq {c c' : Command} (h : c.Alike c') : c.isManaging = c'.isManaging := by
  cases h <;> rfl

theorem runAll_alike {commands commands' : List Command} (hc : List.Forall₂ Command.Alike commands commands')
    {w w' : World} (hw : World.Alike t.encryptor t.encryptor' w w') :
    managed commands (runAll t.outside commands w).1 = managed commands' (runAll t.outside' commands' w').1 ∧
      World.Alike t.encryptor t.encryptor' (runAll t.outside commands w).2 (runAll t.outside' commands' w').2 := by
  induction hc generalizing w w' with
  | nil => exact ⟨rfl, hw⟩
  | @cons c c' more more' h _ ih =>
    obtain ⟨htold, hafter⟩ := run_alike h hw
    obtain ⟨hmore, hend⟩ := ih hafter
    refine ⟨?_, hend⟩
    simp only [managed, runAll, List.zip_cons_cons, List.filter_cons, ← isManaging_eq h] at hmore ⊢
    split
    · rename_i hmanaging
      exact congrArg₂ List.cons (htold hmanaging) hmore
    · exact hmore

end Twins

/-- Logs do not depend on secrets. Take two runs that differ in the keys of their records, in the keys that are
generated, and in the encryptors with what these make of the keys. They report the same events, write the same
texts for manager, keys and encryptor, and end all starts, reloads and rotations alike. -/
theorem logs_are_free_of_secrets (t : Twins) (store store' : Store) (commands commands' : List Command)
    (hs : Store.Alike t.encryptor t.encryptor' store store')
    (hc : List.Forall₂ Command.Alike commands commands') :
    (runAll t.outside commands (World.fresh store)).2.logs =
        (runAll t.outside' commands' (World.fresh store')).2.logs ∧
      managed commands (runAll t.outside commands (World.fresh store)).1 =
        managed commands' (runAll t.outside' commands' (World.fresh store')).1 := by
  have hfresh : World.Alike t.encryptor t.encryptor' (World.fresh store) (World.fresh store') :=
    ⟨hs, Snapshot.alike_empty, rfl, rfl, rfl, rfl, rfl, rfl⟩
  obtain ⟨houtcomes, hend⟩ := Twins.runAll_alike hc hfresh
  exact ⟨hend.logs, houtcomes⟩

section sample

def Sample.seed (n : UInt8) : PrivateKey := .ed25519 ⟨List.replicate 32 n, rfl⟩

def Sample.master (n : UInt8) : MasterKey := ⟨List.replicate 32 n, rfl⟩

def Sample.veiled (n : UInt8) : Setting := { Sample.setting with
  encryptor := .aesGcm (Sample.master n)
  nonce := List.replicate 12 2
  generate := fun alg => if alg = .edDsa then .ok (Sample.seed n) else .error (.noActiveKey alg)
  arrangement := .byCreation }

def Sample.veiledRecord (n : UInt8) : Record where
  kid := "EdDSA_first"
  alg := .edDsa
  isActive := true
  createdAt := ⟨1600000000, 0⟩
  expiresAt := none
  encryptedKey := ⟨List.replicate 12 2, Gcm.close (Sample.master n).cipher (List.replicate 12 2)
    ((Pkcs8.toDer (Sample.seed n)).toOption.getD [])⟩

theorem Sample.opens_veiledRecord (n : UInt8) :
    ∃ key, CachedKey.ofRecord (.aesGcm (Sample.master n)) (Sample.veiledRecord n) = .ok key := by
  obtain ⟨der, hder⟩ := @Pkcs8.exists_toDer (Sample.seed n) nofun
  have hsealed : (Sample.veiledRecord n).encryptedKey =
      ⟨List.replicate 12 2, Gcm.close (Sample.master n).cipher (List.replicate 12 2) der⟩ := by
    rw [Sample.veiledRecord, hder]
    rfl
  refine Twins.Holds.opens ⟨der, Sample.seed n, ?_, Pkcs8.ofDer_toDer hder, rfl⟩
  rw [hsealed]
  exact Encryptor.aesGcm_decrypt_close _ _ _ rfl

def Sample.twins (n n' : UInt8) : Twins where
  encryptor := .aesGcm (Sample.master n)
  encryptor' := .aesGcm (Sample.master n')
  outside := fun _ => Sample.veiled n
  outside' := fun _ => Sample.veiled n'
  sound := Encryptor.aesGcm_sound _
  sound' := Encryptor.aesGcm_sound _
  twin := fun _ => by
    refine ⟨rfl, rfl, ⟨.inr ⟨rfl, rfl⟩, .inr ⟨rfl, rfl⟩⟩, rfl, rfl, rfl, fun alg => ?_, ?_, rfl, rfl, rfl⟩
    · cases alg with
      | edDsa => exact .ok ⟨⟨rfl, nofun⟩, rfl, nofun⟩
      | _ => exact .error _
    · exact Arrangement.byCreation_isBlind _ _

/-- A start, a rotation, a signature and its verification under two master keys and with other keys. -/
theorem logs_of_two_masters_agree :
    let store (n : UInt8) := Store.empty.insert (Sample.veiledRecord n)
    let commands (signature : Bytes) : List Command := [.start, .operation (.rotate .edDsa),
      .operation (.sign .edDsa fun _ => .ok [1]), .operation (.verify "EdDSA_AAAAAAAAAAAAAAAA" [1] signature)]
    Sample.master 1 ≠ Sample.master 2 ∧ Sample.seed 1 ≠ Sample.seed 2 ∧
      (runAll (Sample.twins 1 2).outside (commands [3]) (World.fresh (store 1))).2.logs =
        (runAll (Sample.twins 1 2).outside' (commands [4]) (World.fresh (store 2))).2.logs := by
  intro store commands
  have hstore : Store.Alike (Sample.twins 1 2).encryptor (Sample.twins 1 2).encryptor' (store 1) (store 2) :=
    .cons ⟨rfl, rfl, rfl, rfl, rfl, Sample.opens_veiledRecord 1, Sample.opens_veiledRecord 2⟩ .nil
  have hcommands : List.Forall₂ Command.Alike (commands [3]) (commands [4]) :=
    .cons (.same _) (.cons (.same _) (.cons (.same _) (.cons (.verify _ _ _ _ _) .nil)))
  have hmaster : Sample.master 1 ≠ Sample.master 2 := fun h => absurd (congrArg MasterKey.bytes h) (by decide)
  exact ⟨hmaster, by decide,
    (logs_are_free_of_secrets (Sample.twins 1 2) (store 1) (store 2) (commands [3]) (commands [4]) hstore hcommands).1⟩

end sample

end Keyring.Manager
