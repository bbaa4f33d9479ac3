import Keyring.Proofs.Jwk.Canonical
import Keyring.Proofs.Key.Normalized
import Keyring.Proofs.Manager.Secrecy
import Keyring.Proofs.Pkcs8.Normal
import Keyring.Proofs.Snapshot.Answers

/-!
The active key of an algorithm and the key that is filed under its id. The first is elected among the active
records and the second is the last one listed of the id, so that they are one key if ids are distinct, and
otherwise just if the elected record is the last of its id. Signatures are made with the first; they are
checked, and the public key is published, with the second.
-/
set_option autoImplicit false

namespace Keyring

theorem Record.isLastListed_of_nodup {records : List Record} {r : Record} (hr : r ∈ records)
    (hd : (records.map Record.kid).Nodup) : r.IsLastListed records := by
  obtain ⟨former, later, rfl⟩ := List.append_of_mem hr
  refine ⟨former, later, rfl, fun other ho heq => ?_⟩
  rw [List.map_append, List.map_cons] at hd
  exact (List.nodup_cons.mp hd.of_append_right).1 (heq ▸ List.mem_map_of_mem ho)

theorem JwkSet.Lists.exists_of_mem {keys : List CachedKey} {s : JwkSet} (h : s.Lists keys) {j : Jwk}
    (hj : j ∈ s.keys) : ∃ k ∈ keys, Jwk.Describes k.kid k.alg k.publicKey j := by
  obtain ⟨entries⟩ := s
  simp only [Lists] at h hj
  induction h with
  | nil => cases hj
  | @cons k j' keys entries hdescribes _ ih =>
    rcases List.mem_cons.mp hj with rfl | hj
    · exact ⟨k, List.mem_cons_self, hdescribes⟩
    · obtain ⟨k', hk', hdescribes'⟩ := ih hj
      exact ⟨k', List.mem_cons_of_mem k hk', hdescribes'⟩

namespace Manager

open Manager.Action

variable {outside : Outside} {v : World} {alg : Alg} {k : CachedKey}

theorem signed_of_active (h : v.published.snapshot.active? alg = some k) {build : String → Except Source Bytes}
    {signed : Signed} (hs : ((sign alg build).run outside v).1 = .ok signed) :
    signed.kid = k.kid ∧ k.privateKey.sign signed.payload = .ok signed.signature := by
  rw [sign_eq, run_bind, activeKey, lookUp_run_of_hit h] at hs
  have hbuilt : (signBuilt k (build k.kid, ())).1 = .ok signed := hs
  obtain ⟨hkid, -, hsign⟩ := signBuilt_eq_ok_iff.mp hbuilt
  exact ⟨hkid, hsign⟩

end Manager

namespace Snapshot

open Manager (Outside World)

variable {e : Encryptor} {records : List Record} {s : Snapshot} {alg : Alg} {kid : String} {k : CachedKey}

/-- All that is said about an id is said about this key: it is found under it, signatures are checked with it,
and the public keys have an entry for it and for no other key. -/
structure AnswersFor (s : Snapshot) (kid : String) (k : CachedKey) : Prop where
  found : s.get? kid = some k
  verified : ∀ outside (v : World), v.published.snapshot = s → ∀ payload signature,
    ((Manager.verify kid payload signature).run outside v).1 = verify k.alg k.publicKey payload signature
  published : ∃ i j, s.jwks.1.indexOf? kid = some i ∧ s.jwks.1.keys[i]? = some j ∧
    Jwk.Describes kid k.alg k.publicKey j
  alone : ∀ j ∈ s.jwks.1.keys, j.kid = kid → Jwk.Describes kid k.alg k.publicKey j

theorem answersFor_of_get? (h : (ofRecords e records).1 = .ok s) (hk : s.get? kid = some k) :
    s.AnswersFor kid k := by
  obtain ⟨hmem, rfl⟩ := mem_of_get? hk
  have hnodup := keys_nodup h
  have hperm := JwkSet.sorted_perm s.keys
  have hlists : s.jwks.1.Lists (JwkSet.sorted s.keys) :=
    jwks_lists_of_kind fun _ hk' => (kind_of_ofRecords (Prod.ext h rfl) hk').2
  constructor
  case found => exact hk
  case verified =>
    rintro outside v rfl payload signature
    rw [Manager.verify_run hk]
  case published =>
    exact hlists.indexOf? ((hperm.map _).nodup_iff.mpr hnodup) (hperm.mem_iff.mpr hmem)
  case alone =>
    intro j hj hkid
    obtain ⟨k', hk', hdescribes⟩ := hlists.exists_of_mem hj
    -- the id is that of one key only, as the keys are filed by their ids
    obtain rfl : k' = k :=
      List.inj_on_of_nodup_map hnodup (hperm.mem_iff.mp hk') hmem (hdescribes.kid_eq.symm.trans hkid)
    exact hdescribes

theorem answersFor_iff (h : (ofRecords e records).1 = .ok s) : s.AnswersFor kid k ↔ s.get? kid = some k :=
  ⟨AnswersFor.found, answersFor_of_get? h⟩

theorem AnswersFor.accepts {outside : Outside} {v : World} {build : String → Except Source Bytes}
    {signed : Manager.Signed} (h : s.AnswersFor k.kid k) (hopened : CachedKey.ofRecord e k.record = .ok k)
    (hk : s.active? alg = some k) (hv : v.published.snapshot = s)
    (hs : ((Manager.sign alg build).run outside v).1 = .ok signed)
    (ha : k.privateKey.AcceptsOwn signed.payload) :
    ((Manager.verify signed.kid signed.payload signed.signature).run outside v).1 = .ok () := by
  obtain ⟨hkid, hsigned⟩ := Manager.signed_of_active (hv ▸ hk) hs
  rw [hkid, h.verified outside v hv]
  have hkind : k.privateKey.alg = k.alg := (CachedKey.ofRecord_eq_ok_iff.mp hopened).2.1
  exact hkind ▸ PrivateKey.verify_sign ha hsigned

/-- The active key of an algorithm is an opened record, the greatest of the active ones; and for its id a key
answers whose record is the last one listed of that id. They are the same key just if the active one's record is
the last of its id, as it is where all ids are distinct, and then the signatures that it makes are accepted. -/
theorem active_key_answers_iff_last_listed (h : (ofRecords e records).1 = .ok s) (hk : s.active? alg = some k) :
    (CachedKey.ofRecord e k.record = .ok k ∧ k.record.IsElected alg records) ∧
    (∃ k', s.AnswersFor k.kid k' ∧ k'.kid = k.kid ∧ CachedKey.ofRecord e k'.record = .ok k' ∧
      k'.record.IsLastListed records) ∧
    (s.AnswersFor k.kid k ↔ k.record.IsLastListed records) ∧
    ((records.map Record.kid).Nodup → k.record.IsLastListed records) ∧
    (k.record.IsLastListed records → ∀ outside v build signed, v.published.snapshot = s →
      ((Manager.sign alg build).run outside v).1 = .ok signed → k.privateKey.AcceptsOwn signed.payload →
      ((Manager.verify signed.kid signed.payload signed.signature).run outside v).1 = .ok ()) := by
  have hanswers := answers_of_ofRecords h
  obtain ⟨hopened, helected⟩ := (hanswers.active alg k).mp hk
  have hlisted : k.record ∈ records := by
    obtain ⟨-, former, later, rfl, -⟩ := helected
    simp
  have hself : s.AnswersFor k.kid k ↔ k.record.IsLastListed records := by
    rw [answersFor_iff h, hanswers.get]
    exact ⟨fun hget => hget.2.2, fun hlast => ⟨rfl, hopened, hlast⟩⟩
  refine ⟨⟨hopened, helected⟩, ?_, hself, Record.isLastListed_of_nodup hlisted, ?_⟩
  · obtain ⟨k', hk'⟩ : ∃ k', s.get? k.kid = some k' := by
      refine Option.ne_none_iff_exists'.mp fun hnone => ?_
      exact (hanswers.absent k.kid).mp hnone k.record hlisted rfl
    exact ⟨k', answersFor_of_get? h hk', (hanswers.get k.kid k').mp hk'⟩
  · intro hlast outside v build signed hv hs ha
    exact (hself.mpr hlast).accepts hopened hk hv hs ha

def Sample.twin (n : UInt8) (isActive : Bool) : Record where
  kid := "EdDSA_a"
  alg := .edDsa
  isActive := isActive
  createdAt := ⟨1577836800, 0⟩
  expiresAt := none
  encryptedKey := ⟨[], Pkcs8.Sample.document n⟩

def Sample.twinKey (n : UInt8) (isActive : Bool) : CachedKey := ⟨Sample.twin n isActive, Manager.Sample.seed n⟩

theorem Sample.opens_twin (n : UInt8) (isActive : Bool) :
    CachedKey.ofRecord .plain (twin n isActive) = .ok (twinKey n isActive) := rfl

/-- The active one of two twins answers for their id when it is listed behind the other one. -/
theorem active_twin_listed_last_answers :
    ∃ s k, (ofRecords .plain [Sample.twin 8 false, Sample.twin 7 true]).1 = .ok s ∧ s.active? .edDsa = some k ∧
      k.record = Sample.twin 7 true ∧ s.AnswersFor k.kid k := by
  have h := (extend_eq_ok_iff .plain empty _ _).mpr
    ⟨_, .cons (Sample.opens_twin 8 false) (.cons (Sample.opens_twin 7 true) .nil), rfl⟩
  have hk : (empty.addAll [Sample.twinKey 8 false, Sample.twinKey 7 true]).active? .edDsa =
      some (Sample.twinKey 7 true) := by decide
  obtain ⟨-, -, hself, -⟩ := active_key_answers_iff_last_listed h hk
  exact ⟨_, _, h, hk, rfl, hself.mpr ⟨[_], [], rfl, nofun⟩⟩

/-- Both in one evaluation, of which the constants of the digest are the greatest part. -/
theorem Sample.seeds_differ :
    (Manager.Sample.seed 8).publicKey ≠ (Manager.Sample.seed 7).publicKey ∧
    ((Manager.Sample.seed 7).sign [1]).toOption.all (fun signature =>
      (verify .edDsa (Manager.Sample.seed 8).publicKey [1] signature).toOption.isNone) = true := by
  decide +kernel

/-- When the other one is listed behind it, the active one signs, and the other one is published and refuses the
signatures. -/
theorem active_twin_listed_first_is_hidden :
    ∃ s k k', (ofRecords .plain [Sample.twin 7 true, Sample.twin 8 false]).1 = .ok s ∧ s.active? .edDsa = some k ∧
      s.get? k.kid = some k' ∧ k' ≠ k ∧ s.AnswersFor k.kid k' ∧ k'.publicKey ≠ k.publicKey ∧
      ∃ signature, k.privateKey.sign [1] = .ok signature ∧
        verify k'.alg k'.publicKey [1] signature = .error .invalidSignature := by
  have h := (extend_eq_ok_iff .plain empty _ _).mpr
    ⟨_, .cons (Sample.opens_twin 7 true) (.cons (Sample.opens_twin 8 false) .nil), rfl⟩
  have hk : (empty.addAll [Sample.twinKey 7 true, Sample.twinKey 8 false]).active? .edDsa =
      some (Sample.twinKey 7 true) := by decide
  have hk' : (empty.addAll [Sample.twinKey 7 true, Sample.twinKey 8 false]).get? "EdDSA_a" =
      some (Sample.twinKey 8 false) := by decide
  obtain ⟨hpublic, hnone⟩ := Sample.seeds_differ
  obtain ⟨signature, hsign⟩ : ∃ signature, (Manager.Sample.seed 7).sign [1] = .ok signature := ⟨_, rfl⟩
  rw [hsign, show (Except.ok signature : Except KeyError Bytes).toOption = some signature from rfl,
    Option.all_some] at hnone
  have hrefused : verify .edDsa (Manager.Sample.seed 8).publicKey [1] signature = .error .invalidSignature := by
    have hkind : (Manager.Sample.seed 8).publicKey.alg = .edDsa := rfl
    refine (verify_of_alg_eq hkind (by simp)).resolve_left fun haccepted => ?_
    rw [haccepted] at hnone
    cases hnone
  exact ⟨_, _, _, h, hk, hk', by decide, answersFor_of_get? h hk', hpublic, signature, hsign, hrefused⟩

end Snapshot
end Keyring
