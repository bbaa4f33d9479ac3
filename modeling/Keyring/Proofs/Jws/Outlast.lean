import Keyring.Proofs.Fleet.Soundness
import Keyring.Proofs.Json.RoundTrip
import Keyring.Proofs.Jws.Header
import Keyring.Proofs.Jws.Verify
import Keyring.Proofs.Manager.Vouched

set_option autoImplicit false

namespace Keyring.Jws

open Manager Manager.Action Fleet

variable {outside : Outside} {e : Encryptor} {w w' v : World} {key k : CachedKey}

theorem dot_not_mem_encodePart (bs : Bytes) : '.' ∉ (encodePart bs).toList := Base64.dot_not_mem_text bs

/-- The parts of a token that is written out of the bytes that it is to say. -/
def written (header claims signature : Bytes) : Parts where
  header := (encodePart header).toList
  claims := (encodePart claims).toList
  signature := (encodePart signature).toList

section written

variable (header claims signature : Bytes)

theorem written_of : (written header claims signature).Of
    (encodePart header ++ "." ++ encodePart claims ++ "." ++ encodePart signature) where
  token := by simp [written]
  header := dot_not_mem_encodePart header
  claims := dot_not_mem_encodePart claims
  signature := dot_not_mem_encodePart signature

theorem written_header : Encodes (written header claims signature).header header := Eq.refl _

theorem written_claims : Encodes (written header claims signature).claims claims := Eq.refl _

theorem written_signature : Encodes (written header claims signature).signature signature := Eq.refl _

theorem written_signingInput : Utf8.encode ((written header claims signature).header ++
    '.' :: (written header claims signature).claims) =
      Utf8.ofString (encodePart header ++ "." ++ encodePart claims) := by
  simp [written, Utf8.ofString]

end written

def headerBytes (alg : Alg) (kid : String) : Bytes :=
  Utf8.encode (Header.toJson ⟨alg.name, kid, some "JWT"⟩).text

/-- How a token comes to be: from a header for the active key and from claims, all of which that key has
signed. -/
structure WrittenBy (key : CachedKey) (alg : Alg) (claims : Bytes) (token : String) (w' : World) : Prop where
  active : w'.published.snapshot.active? alg = some key
  parts : ∃ signature, (written (headerBytes alg key.kid) claims signature).Of token ∧
    key.privateKey.sign (Utf8.encode (beforeLastDot token.toList)) = .ok signature

theorem signCompact_runs {alg : Alg} {claims : Claims} {bs : Bytes} (hclaims : claims.write = .ok bs)
    (w : World) : (signCompact alg claims).Runs outside (fun _ => True) w fun outcome w' =>
      ∀ token, outcome = .ok token → ∃ key, WrittenBy key alg bs token w' := by
  unfold signCompact
  rw [hclaims]
  refine .bind ((sign_runs _ _ w).mono (fun _ _ => trivial) fun outcome w₁ h => ?_)
  cases outcome with
  | error error => exact nofun
  | ok signed =>
    refine ⟨trivial, fun token htoken => ?_⟩
    obtain ⟨key, hsigned⟩ := h signed rfl
    have hpayload := Except.ok.inj hsigned.payload
    -- the payload is a text, and the token is this text with the signature behind it
    have hof := written_of (headerBytes alg key.kid) bs signed.signature
    have heq : encodePart (headerBytes alg key.kid) ++ "." ++ encodePart bs ++ "." ++
        encodePart signed.signature = token := by
      rw [← Except.ok.inj htoken, ← hpayload, Utf8.string?_ofString, Option.getD_some]
      rfl
    rw [heq] at hof
    have hinput : Utf8.encode (beforeLastDot token.toList) = signed.payload := by
      rw [hof.beforeLastDot_eq, written_signingInput]
      exact hpayload
    exact ⟨key, hsigned.active, signed.signature, hof, hinput ▸ hsigned.signature⟩

theorem HasHeader.decodeHeader_eq {token : String} {p : Parts} {header : Header}
    (h : HasHeader token p header) : decodeHeader token = .ok header := by
  obtain ⟨hp, hjson⟩ := h.decoded
  rw [decodeHeader, hp]
  exact hjson

theorem verifyCompact_run {token : String} {p : Parts} {header : Header} {alg : Alg}
    (h : IsSigned v.published.snapshot.get? token p header alg k) (outside : Outside) :
    (verifyCompact token).run outside v =
      (decodeJson Json.Reader.anyValue .claims p.claims, v.report [.keyHit header.kid]) := by
  have hdone {α : Type} (x : Except KeyError α) (v : World) : (Action.ofExcept x).run outside v = (x, v) := rfl
  obtain ⟨hp, hheader⟩ := h.toHasHeader.decoded
  obtain ⟨signature, hbs, hs⟩ := h.signature
  rw [verifyCompact, run_bind, hdone, hp]
  simp only
  rw [run_bind, hdone, hheader]
  simp only [h.named]
  rw [run_bind, keyById_run h.found]
  simp only [h.kind, ne_eq, not_true, if_false]
  rw [run_bind, hdone, decodePart_eq_ok_iff.mpr hbs]
  simp only
  rw [run_bind, hdone, h.parts.signingInput_eq, hs]
  rfl

/-- The token is accepted with its header and claims, whatever the answers from outside are, and the store
is not asked for anything. -/
structure Accepted (v : World) (token : String) (header : Header) (claims : Json.Value) : Prop where
  decoded : decodeHeader token = .ok header
  verified : ∀ outside,
    (verifyCompact token).run outside v = (.ok claims, v.report [.keyHit header.kid])

theorem WrittenBy.accepted {alg : Alg} {claims : Json.Value} {bs : Bytes} {token : String}
    (h : WrittenBy key alg (Utf8.encode claims.text) token w')
    (hkey : CachedKey.ofRecord e key.record = .ok key) (hv : v.published.snapshot.Holds key v.store)
    (ha : key.privateKey.AcceptsOwn (Utf8.encode (beforeLastDot token.toList)))
    (hread : Json.Value.ofBytes bs = .ok claims) (hn : ∀ n ∈ claims.numbers, n.IsInteger) :
    Accepted v token ⟨alg.name, key.kid, some "JWT"⟩ claims := by
  obtain ⟨signature, hof, hsign⟩ := h.parts
  have hheader : HasHeader token _ ⟨alg.name, key.kid, some "JWT"⟩ :=
    ⟨hof, _, written_header _ _ _, Header.read_text _⟩
  -- the token names the key, whose entry may have become inactive but verifies alike
  obtain ⟨k, hget, -, hkalg, hpublic⟩ := hv.answers
  have halg : key.alg = alg := Snapshot.alg_of_active? h.active
  have hkind : key.privateKey.alg = alg := (CachedKey.ofRecord_eq_ok_iff.mp hkey).2.1.trans halg
  have hverify : Keyring.verify alg k.publicKey (Utf8.encode (beforeLastDot token.toList)) signature =
      .ok () := by
    rw [hpublic, ← hkind]
    exact PrivateKey.verify_sign ha hsign
  have hsigned : IsSigned v.published.snapshot.get? token _ _ alg k :=
    ⟨⟨hheader, Alg.ofName?_name alg, hget⟩, hkalg.trans halg, signature, written_signature _ _ _, hverify⟩
  have hclaims : decodeJson Json.Reader.anyValue .claims
      (written (headerBytes alg key.kid) (Utf8.encode claims.text) signature).claims = .ok claims :=
    decodeJson_eq_ok_iff.mpr ⟨_, written_claims _ _ _, Json.ofBytes_text hread hn⟩
  exact ⟨hheader.decodeHeader_eq, fun outside => by rw [verifyCompact_run hsigned, hclaims]⟩

/-- A manager that starts over any store, whose encryptor may fail like all else, accepts what it has once
signed from then on: a payload, and a token of claims that were read without floating point numbers. On the
two curves this takes for granted that the native check accepts the native signature. Others may edit the
store between operations, as long as it retains its records. -/
theorem signatures_outlive_rotation (outside : Outside) (e : Encryptor) (he : DecryptsWith outside e)
    (store : Store) (w : World) (hw : Reaches outside Store.Retains (World.fresh store) w) :
    (∀ alg build signed w', (sign alg build).run outside w = (.ok signed, w') →
      ∃ key, SignedBy key alg build signed w' ∧ (key.privateKey.AcceptsOwn signed.payload →
        ∀ v, Reaches outside Store.Retains w' v → VouchedFor v key signed.payload signed.signature)) ∧
    (∀ alg bs claims token w', Json.Value.ofBytes bs = .ok claims → (∀ n ∈ claims.numbers, n.IsInteger) →
      (signCompact alg (.value claims)).run outside w = (.ok token, w') →
      ∃ key, w'.published.snapshot.active? alg = some key ∧
        (key.privateKey.AcceptsOwn (Utf8.encode (beforeLastDot token.toList)) →
          ∀ v, Reaches outside Store.Retains w' v →
            Accepted v token ⟨alg.name, key.kid, some "JWT"⟩ claims)) := by
  constructor
  · intro alg build signed w' hrun
    have hw' : Reaches outside Store.Retains (World.fresh store) w' := by
      have hstep := hw.run (.sign alg build)
      rwa [Operation.action, run_bind, hrun] at hstep
    have hend := (@sign_runs outside alg build w).ends
    rw [hrun] at hend
    obtain ⟨key, hsigned⟩ := hend signed rfl
    refine ⟨key, hsigned, fun ha v hv => ?_⟩
    obtain ⟨hkey, hholds⟩ := holds_of_active he hw' hsigned.active hv
    exact vouchedFor_of_holds hholds hkey (hsigned.verify_eq hkey ha)
  · intro alg bs claims token w' hread hn hrun
    have hw' : Reaches outside Store.Retains (World.fresh store) w' := by
      have hstep := hw.run (.signCompact alg (.value claims))
      rwa [Operation.action, run_bind, hrun] at hstep
    have hend := (@signCompact_runs outside alg (.value claims) _ rfl w).ends
    rw [hrun] at hend
    obtain ⟨key, hwritten⟩ := hend token rfl
    refine ⟨key, hwritten.active, fun ha v hv => ?_⟩
    obtain ⟨hkey, hholds⟩ := holds_of_active he hw' hwritten.active hv
    exact hwritten.accepted hkey hholds ha hread hn

def Sample.signing : Except KeyError Signed × World :=
  (sign .rs256 fun kid => .ok (Utf8.ofString kid)).run Sample.failing (.fresh Sample.signingStore)

/-- After a rotation, and a reload that fails. -/
def Sample.later (w : World) : World :=
  (Operation.reload.action.run Sample.failing ((Operation.rotate .rs256).action.run Sample.failing w).2).2

/-- A payload and a token that were signed with the first key are accepted when another key is in service
and the store can no longer be listed. -/
theorem first_signatures_outlive_rotation :
    (∃ key signed, Sample.signing.1 = .ok signed ∧
      VouchedFor (Sample.later Sample.signing.2) key signed.payload signed.signature) ∧
    (∃ kid token, Sample.writing.1 = .ok token ∧
      Accepted (Sample.later Sample.writing.2) token ⟨"RS256", kid, some "JWT"⟩ Sample.claims) ∧
    ((Sample.later Sample.signing.2).published.snapshot.active? .rs256).map CachedKey.kid =
      some "RS256_AAAAAAAAAAAAAAAA" := by
  have hruns : Sample.signing.1.toOption.isSome = true ∧ Sample.writing.1.toOption.isSome = true ∧
      (Sample.signing.2.published.snapshot.active? .rs256).map (fun k => k.privateKey.alg) = some .rs256 ∧
      (Sample.writing.2.published.snapshot.active? .rs256).map (fun k => k.privateKey.alg) = some .rs256 ∧
      ((Sample.later Sample.signing.2).published.snapshot.active? .rs256).map CachedKey.kid =
        some "RS256_AAAAAAAAAAAAAAAA" := by decide +kernel
  obtain ⟨hsigned, hwritten, hsigner, hwriter, hrotated⟩ := hruns
  obtain ⟨signed, hsigning⟩ := eq_ok_of_isSome hsigned
  obtain ⟨token, hwriting⟩ := eq_ok_of_isSome hwritten
  have he : DecryptsWith Sample.failing .plain := by
    intro moment sealed plaintext h
    by_cases hm : moment < 14
    · simpa [Sample.failing, hm, Fleet.Sample.setting] using h
    · simp [Sample.failing, hm, Encryptor.blocked] at h
  have hlater (v : World) : Reaches Sample.failing Store.Retains v (Sample.later v) :=
    (Reaches.refl.run (.rotate .rs256)).run .reload
  obtain ⟨hsign, hwrite⟩ :=
    signatures_outlive_rotation Sample.failing .plain he Sample.signingStore _ .refl
  obtain ⟨key, hby, hvouched⟩ := hsign _ _ signed _ hsigning
  obtain ⟨key', hactive, haccepted⟩ := hwrite _ [0x5b, 0x37, 0x5d] Sample.claims token _ rfl
    (by simp [Sample.claims, Json.Value.numbers, Json.elementsNumbers, Json.Number.IsInteger]) hwriting
  rw [hby.active] at hsigner
  rw [hactive] at hwriter
  refine ⟨⟨key, signed, congrArg Prod.fst hsigning, ?_⟩,
    ⟨key'.kid, token, congrArg Prod.fst hwriting, ?_⟩, hrotated⟩
  · exact hvouched (PrivateKey.acceptsOwn_of_alg (Option.some.inj hsigner) _) _ (hlater _)
  · exact haccepted (PrivateKey.acceptsOwn_of_alg (Option.some.inj hwriter) _) _ (hlater _)

end Keyring.Jws
