import Keyring.Proofs.Fleet.Soundness
import Keyring.Proofs.Jws.Token
import Keyring.Proofs.Manager.Run

/-!
Which tokens are accepted. A token is judged by one condition after another, and the first that does not
hold decides the error. Main statement: this is what the check of a token comes to, and it lists the
store at most once, for a key that is not in the snapshot in use.
-/
set_option autoImplicit false

namespace Keyring.Jws

open Manager

/-- The text is not base64, because of the given fault. -/
structure Unreadable (text : List Char) (fault : Base64.Fault) : Prop where
  not_encodes : ∀ bs, ¬ Encodes text bs
  fault : Base64.decode Base64.url (Utf8.encode text) = .error fault

structure HasHeader (token : String) (p : Parts) (header : Header) : Prop where
  parts : p.Of token
  json : ∃ bs, Encodes p.header bs ∧ Header.read.run bs = .ok header

/-- The header names an algorithm and a key that is there. -/
structure NamesKey (find? : String → Option CachedKey) (token : String) (p : Parts) (header : Header)
    (alg : Alg) (key : CachedKey) : Prop extends HasHeader token p header where
  named : Alg.ofName? header.alg = some alg
  found : find? header.kid = some key

/-- The key is of the named algorithm and has signed all of the token that is before its last dot. -/
structure IsSigned (find? : String → Option CachedKey) (token : String) (p : Parts) (header : Header)
    (alg : Alg) (key : CachedKey) : Prop extends NamesKey find? token p header alg key where
  kind : key.alg = alg
  signature : ∃ signature, Encodes p.signature signature ∧
    Keyring.verify alg key.publicKey (Utf8.encode (beforeLastDot token.toList)) signature = .ok ()

/-- What becomes of a token: it is accepted, or the first condition that fails gives the error. -/
inductive Judged (find? : String → Option CachedKey) (token : String) :
    Except KeyError Json.Value → Prop where
  | partCount (h : ∀ p : Parts, ¬ p.Of token) : Judged find? token (.error (.decode .partCount))
  | headerText {p : Parts} {fault : Base64.Fault} (hp : p.Of token) (h : Unreadable p.header fault) :
      Judged find? token (.error (.decode (.partText .header fault)))
  | headerJson {p : Parts} {bs : Bytes} {fault : Json.Fault} (hp : p.Of token) (hbs : Encodes p.header bs)
      (h : Header.read.run bs = .error fault) :
      Judged find? token (.error (.decode (.partJson .header fault)))
  | algorithm {p : Parts} {header : Header} (hheader : HasHeader token p header)
      (h : Alg.ofName? header.alg = none) : Judged find? token (.error (.unsupportedAlgorithm header.alg))
  | key {p : Parts} {header : Header} {alg : Alg} (hheader : HasHeader token p header)
      (halg : Alg.ofName? header.alg = some alg) (h : find? header.kid = none) :
      Judged find? token (.error (.keyNotFound header.kid))
  | kind {p : Parts} {header : Header} {alg : Alg} {key : CachedKey}
      (hkey : NamesKey find? token p header alg key) (h : key.alg ≠ alg) :
      Judged find? token (.error (.wrongKeyType key.alg))
  | signatureText {p : Parts} {header : Header} {alg : Alg} {key : CachedKey} {fault : Base64.Fault}
      (hkey : NamesKey find? token p header alg key) (halg : key.alg = alg)
      (h : Unreadable p.signature fault) :
      Judged find? token (.error (.decode (.partText .signature fault)))
  | signature {p : Parts} {header : Header} {alg : Alg} {key : CachedKey} {signature : Bytes}
      {error : KeyError} (hkey : NamesKey find? token p header alg key) (halg : key.alg = alg)
      (hbs : Encodes p.signature signature)
      (h : Keyring.verify alg key.publicKey (Utf8.encode (beforeLastDot token.toList)) signature =
        .error error) : Judged find? token (.error error)
  | claimsText {p : Parts} {header : Header} {alg : Alg} {key : CachedKey} {fault : Base64.Fault}
      (hsigned : IsSigned find? token p header alg key) (h : Unreadable p.claims fault) :
      Judged find? token (.error (.decode (.partText .claims fault)))
  | claimsJson {p : Parts} {header : Header} {alg : Alg} {key : CachedKey} {bs : Bytes} {fault : Json.Fault}
      (hsigned : IsSigned find? token p header alg key) (hbs : Encodes p.claims bs)
      (h : Json.Reader.anyValue.run bs = .error fault) :
      Judged find? token (.error (.decode (.partJson .claims fault)))
  | accepted {p : Parts} {header : Header} {alg : Alg} {key : CachedKey} {bs : Bytes} {claims : Json.Value}
      (hsigned : IsSigned find? token p header alg key) (hbs : Encodes p.claims bs)
      (h : Json.Reader.anyValue.run bs = .ok claims) : Judged find? token (.ok claims)

/-- The check of a token with the look-up of its key left open. -/
def verdict (find? : String → Option CachedKey) (token : String) : Except KeyError Json.Value := do
  let p ← Parts.ofToken token
  let header ← decodeJson Header.read .header p.header
  match Alg.ofName? header.alg with
  | none => .error (.unsupportedAlgorithm header.alg)
  | some alg =>
    match find? header.kid with
    | none => .error (.keyNotFound header.kid)
    | some key =>
      if key.alg ≠ alg then .error (.wrongKeyType key.alg)
      else do
        let signature ← decodePart .signature p.signature
        Keyring.verify alg key.publicKey p.signingInput signature
        decodeJson Json.Reader.anyValue .claims p.claims

section verdict

variable {find? : String → Option CachedKey} {token : String} {p : Parts} {header : Header} {alg : Alg}
  {key : CachedKey}

theorem Unreadable.decodePart_eq {part : TokenPart} {text : List Char} {fault : Base64.Fault}
    (h : Unreadable text fault) : decodePart part text = .error (.decode (.partText part fault)) :=
  decodePart_eq_error_iff.mpr ⟨fault, h.fault, rfl⟩

theorem unreadable_of_decode {text : List Char} {fault : Base64.Fault}
    (h : Base64.decode Base64.url (Utf8.encode text) = .error fault) : Unreadable text fault := by
  refine ⟨fun bs hbs => ?_, h⟩
  have hpart : decodePart .header text = .error (.decode (.partText .header fault)) :=
    decodePart_eq_error_iff.mpr ⟨fault, h, rfl⟩
  rw [decodePart_eq_ok_iff.mpr hbs] at hpart
  cases hpart

theorem Unreadable.decodeJson_eq {α : Type} {r : Json.Reader α} {part : TokenPart} {text : List Char}
    {fault : Base64.Fault} (h : Unreadable text fault) :
    decodeJson r part text = .error (.decode (.partText part fault)) :=
  decodeJson_eq_error_iff.mpr (.inl ⟨fault, h.fault, rfl⟩)

theorem Parts.Of.signingInput_eq (h : p.Of token) :
    p.signingInput = Utf8.encode (beforeLastDot token.toList) := by
  rw [h.beforeLastDot_eq]
  rfl

theorem HasHeader.verdict_eq (h : HasHeader token p header) :
    verdict find? token = match Alg.ofName? header.alg with
      | none => .error (.unsupportedAlgorithm header.alg)
      | some alg =>
        match find? header.kid with
        | none => .error (.keyNotFound header.kid)
        | some key =>
          if key.alg ≠ alg then .error (.wrongKeyType key.alg)
          else (do
            let signature ← decodePart .signature p.signature
            Keyring.verify alg key.publicKey p.signingInput signature
            decodeJson Json.Reader.anyValue .claims p.claims) := by
  rw [verdict, Parts.ofToken_eq_ok_iff.mpr h.parts]
  simp only [bind, Except.bind]
  rw [decodeJson_eq_ok_iff.mpr h.json]

theorem NamesKey.verdict_eq (h : NamesKey find? token p header alg key) (halg : key.alg = alg) :
    verdict find? token = (do
      let signature ← decodePart .signature p.signature
      Keyring.verify alg key.publicKey p.signingInput signature
      decodeJson Json.Reader.anyValue .claims p.claims) := by
  rw [h.toHasHeader.verdict_eq]
  simp only [h.named, h.found, halg, ne_eq, not_true, if_false]

theorem IsSigned.verdict_eq (h : IsSigned find? token p header alg key) :
    verdict find? token = decodeJson Json.Reader.anyValue .claims p.claims := by
  obtain ⟨signature, hbs, hv⟩ := h.signature
  rw [h.toNamesKey.verdict_eq h.kind, decodePart_eq_ok_iff.mpr hbs]
  simp only [bind, Except.bind, h.parts.signingInput_eq, hv]

theorem Judged.verdict_eq {r : Except KeyError Json.Value} (h : Judged find? token r) :
    verdict find? token = r := by
  cases h with
  | partCount h =>
    cases hp : Parts.ofToken token with
    | error error => simp [verdict, hp, (Parts.ofToken_eq_error hp).1, bind, Except.bind]
    | ok p => exact absurd (Parts.ofToken_eq_ok_iff.mp hp) (h p)
  | headerText hp h =>
    simp [verdict, Parts.ofToken_eq_ok_iff.mpr hp, h.decodeJson_eq, bind, Except.bind]
  | headerJson hp hbs h =>
    have hjson : decodeJson Header.read .header _ = _ :=
      decodeJson_eq_error_iff.mpr (.inr ⟨_, _, hbs, h, rfl⟩)
    simp [verdict, Parts.ofToken_eq_ok_iff.mpr hp, hjson, bind, Except.bind]
  | algorithm hheader h => simp [hheader.verdict_eq, h]
  | key hheader halg h => simp [hheader.verdict_eq, halg, h]
  | kind hkey h => simp [hkey.toHasHeader.verdict_eq, hkey.named, hkey.found, h]
  | signatureText hkey halg h => simp [hkey.verdict_eq halg, h.decodePart_eq, bind, Except.bind]
  | signature hkey halg hbs h =>
    simp [hkey.verdict_eq halg, decodePart_eq_ok_iff.mpr hbs, hkey.parts.signingInput_eq, h, bind, Except.bind]
  | claimsText hsigned h => rw [hsigned.verdict_eq, h.decodeJson_eq]
  | claimsJson hsigned hbs h =>
    rw [hsigned.verdict_eq, decodeJson_eq_error_iff.mpr (.inr ⟨_, _, hbs, h, rfl⟩)]
  | accepted hsigned hbs h => rw [hsigned.verdict_eq, decodeJson_eq_ok_iff.mpr ⟨_, hbs, h⟩]

theorem IsSigned.judged (h : IsSigned find? token p header alg key) :
    Judged find? token (decodeJson Json.Reader.anyValue .claims p.claims) := by
  cases hc : decodeJson Json.Reader.anyValue .claims p.claims with
  | ok claims =>
    obtain ⟨bs, hbs, hrun⟩ := decodeJson_eq_ok_iff.mp hc
    exact .accepted h hbs hrun
  | error error =>
    rcases decodeJson_eq_error_iff.mp hc with ⟨fault, hf, rfl⟩ | ⟨bs, fault, hbs, hrun, rfl⟩
    · exact .claimsText h (unreadable_of_decode hf)
    · exact .claimsJson h hbs hrun

theorem NamesKey.judged (h : NamesKey find? token p header alg key) :
    Judged find? token (verdict find? token) := by
  by_cases halg : key.alg = alg
  · rw [h.verdict_eq halg]
    cases hs : decodePart .signature p.signature with
    | error error =>
      obtain ⟨fault, hf, rfl⟩ := decodePart_eq_error_iff.mp hs
      exact .signatureText h halg (unreadable_of_decode hf)
    | ok signature =>
      have hbs := decodePart_eq_ok_iff.mp hs
      simp only [bind, Except.bind]
      cases hv : Keyring.verify alg key.publicKey p.signingInput signature with
      | error error => exact .signature h halg hbs (h.parts.signingInput_eq ▸ hv)
      | ok _ => exact IsSigned.judged ⟨h, halg, signature, hbs, h.parts.signingInput_eq ▸ hv⟩
  · have hr := Judged.kind h halg
    rwa [hr.verdict_eq]

theorem judged_verdict (find? : String → Option CachedKey) (token : String) :
    Judged find? token (verdict find? token) := by
  suffices h : ∃ r, Judged find? token r by
    obtain ⟨r, hr⟩ := h
    rwa [hr.verdict_eq]
  cases hp : Parts.ofToken token with
  | error error => exact ⟨_, .partCount (Parts.ofToken_eq_error hp).2⟩
  | ok p =>
  have hp := Parts.ofToken_eq_ok_iff.mp hp
  cases hh : decodeJson Header.read .header p.header with
  | error error =>
    rcases decodeJson_eq_error_iff.mp hh with ⟨fault, hf, rfl⟩ | ⟨bs, fault, hbs, hrun, rfl⟩
    · exact ⟨_, .headerText hp (unreadable_of_decode hf)⟩
    · exact ⟨_, .headerJson hp hbs hrun⟩
  | ok header =>
  have hheader : HasHeader token p header := ⟨hp, decodeJson_eq_ok_iff.mp hh⟩
  cases halg : Alg.ofName? header.alg with
  | none => exact ⟨_, .algorithm hheader halg⟩
  | some alg =>
  cases hkey : find? header.kid with
  | none => exact ⟨_, .key hheader halg hkey⟩
  | some key => exact ⟨_, NamesKey.judged ⟨hheader, halg, hkey⟩⟩

theorem verdict_eq_iff {r : Except KeyError Json.Value} : verdict find? token = r ↔ Judged find? token r :=
  ⟨fun h => h ▸ judged_verdict find? token, Judged.verdict_eq⟩

end verdict

/-- The key that a token names is looked for, and is not in the snapshot in use. -/
def Misses (w : World) (token : String) : Prop :=
  ∃ p header alg, HasHeader token p header ∧ Alg.ofName? header.alg = some alg ∧
    w.published.snapshot.get? header.kid = none

/-- What the check of a token leaves behind: a reload on a miss, and nothing otherwise. -/
structure Checked (w : World) (token : String) (w' : World) : Prop where
  store : w'.store = w.store
  rotateCalls : w'.rotateCalls = w.rotateCalls
  miss : Misses w token → w'.listCalls = w.listCalls + 1
  hit : ¬ Misses w token → w'.listCalls = w.listCalls ∧ w'.published = w.published

theorem Checked.of_untouched {w w' : World} {token : String} (hw : w.Untouched w') (h : ¬ Misses w token) :
    Checked w token w' :=
  ⟨hw.store, hw.rotateCalls, fun hm => absurd hm h, fun _ => ⟨hw.listCalls, hw.published⟩⟩

theorem HasHeader.decoded {token : String} {p : Parts} {header : Header} (h : HasHeader token p header) :
    Parts.ofToken token = .ok p ∧ decodeJson Header.read .header p.header = .ok header :=
  ⟨Parts.ofToken_eq_ok_iff.mpr h.parts, decodeJson_eq_ok_iff.mpr h.json⟩

theorem misses_iff {w : World} {token : String} {p : Parts} {header : Header} (h : HasHeader token p header) :
    Misses w token ↔
      (Alg.ofName? header.alg).isSome = true ∧ w.published.snapshot.get? header.kid = none := by
  constructor
  · rintro ⟨p', header', alg, h', halg, hmiss⟩
    -- a token has one header
    obtain ⟨hp, hheader⟩ := h.decoded
    obtain ⟨hp', hheader'⟩ := h'.decoded
    cases hp.symm.trans hp'
    cases hheader.symm.trans hheader'
    exact ⟨by simp [halg], hmiss⟩
  · rintro ⟨halg, hmiss⟩
    obtain ⟨alg, halg⟩ := Option.isSome_iff_exists.mp halg
    exact ⟨p, header, alg, h, halg, hmiss⟩

theorem checked_of_lookedUp {outside : Outside} {w w₁ w' : World} {token : String} {p : Parts}
    {header : Header} {alg : Alg} {outcome : Except KeyError CachedKey} (hheader : HasHeader token p header)
    (halg : Alg.ofName? header.alg = some alg)
    (h : LookedUp outside (fun s => s.get? header.kid) (.keyMiss header.kid) (.keyNotFound header.kid) w
      outcome w₁) (hw : w₁.Untouched w') : Checked w token w' := by
  cases hget : w.published.snapshot.get? header.kid with
  | some key =>
    exact .of_untouched ((h.hit (by simp [hget])).trans hw) (by simp [misses_iff hheader, hget])
  | none =>
    have hreload := (@reload_runs outside (w.report [.keyMiss header.kid])).ends
    have hw := (h.miss hget).trans hw
    refine ⟨hw.store.trans hreload.1.store, hw.rotateCalls.trans hreload.1.rotateCalls, fun _ => ?_, fun hm => ?_⟩
    · exact hw.listCalls.trans hreload.2
    · exact absurd ((misses_iff hheader).mpr ⟨by simp [halg], hget⟩) hm

theorem verifyCompact_runs (outside : Outside) (w : World) (token : String) :
    (verifyCompact token).Runs outside (fun _ => True) w fun outcome w' =>
      outcome = verdict (fun kid => found? outside (fun s => s.get? kid) (.keyMiss kid) w) token ∧
        Checked w token w' := by
  refine .bind (Action.runs_done trivial ?_)
  cases hp : Parts.ofToken token with
  | error error =>
    refine ⟨by simp [verdict, hp, bind, Except.bind], .of_untouched (.refl w) fun ⟨p, _, _, hheader, _⟩ => ?_⟩
    exact (Parts.ofToken_eq_error hp).2 p hheader.parts
  | ok p =>
  refine .bind (Action.runs_done trivial ?_)
  cases hh : decodeJson Header.read .header p.header with
  | error error =>
    refine ⟨by simp [verdict, hp, hh, bind, Except.bind], .of_untouched (.refl w) ?_⟩
    rintro ⟨p', header, alg, hheader, -⟩
    obtain ⟨hp', hheader⟩ := hheader.decoded
    cases hp.symm.trans hp'
    cases hh.symm.trans hheader
  | ok header =>
  have hheader : HasHeader token p header := ⟨Parts.ofToken_eq_ok_iff.mp hp, decodeJson_eq_ok_iff.mp hh⟩
  cases halg : Alg.ofName? header.alg with
  | none =>
    simp only [halg]
    refine ⟨trivial, ?_, .of_untouched (.refl w) (by simp [misses_iff hheader, halg])⟩
    simp [hheader.verdict_eq, halg]
  | some alg =>
  simp only [halg]
  refine .bind ((lookUp_runs _ _ _ _ w).mono (fun _ _ => trivial) fun outcome w₁ h => ?_)
  have hchecked {w' : World} (hw : w₁.Untouched w') := checked_of_lookedUp hheader halg h hw
  have houtcome := h.outcome
  cases hkey : found? outside (fun s => s.get? header.kid) (.keyMiss header.kid) w with
  | none =>
    rw [hkey] at houtcome
    subst houtcome
    exact ⟨by simp [hheader.verdict_eq, halg, hkey], hchecked (.refl _)⟩
  | some key =>
    rw [hkey] at houtcome
    subst houtcome
    have hnames : NamesKey (fun kid => found? outside (fun s => s.get? kid) (.keyMiss kid) w) token p header
      alg key := ⟨hheader, halg, hkey⟩
    simp only [Option.elim_some]
    by_cases hkind : key.alg = alg
    · rw [if_neg (not_not.mpr hkind), hnames.verdict_eq hkind]
      refine .bind (Action.runs_done trivial ?_)
      cases decodePart .signature p.signature with
      | error error => exact ⟨rfl, hchecked (.refl _)⟩
      | ok signature =>
      refine .bind (Action.runs_done trivial ?_)
      simp only [bind, Except.bind]
      cases Keyring.verify alg key.publicKey p.signingInput signature with
      | error error => exact ⟨rfl, hchecked (.refl _)⟩
      | ok _ => exact ⟨trivial, rfl, hchecked (.refl _)⟩
    · rw [if_pos hkind, (Judged.kind hnames hkind).verdict_eq]
      refine .bind (Action.runs_report (fun _ _ => trivial) ⟨trivial, rfl, hchecked (.report _ _)⟩)

/-- A token is accepted if it has three parts, names in a header a known algorithm and a key of it that is
there, is signed with that key up to its last dot, and has claims; otherwise the first of these conditions
that fails decides the error. The signing input can be cut off by its length in bytes, the records of the
store stay as they are, and the store is listed once if the named key is not in the snapshot in use. -/
theorem tokens_are_judged (outside : Outside) (w : World) (token : String) :
    let find? kid := found? outside (fun s => s.get? kid) (.keyMiss kid) w
    (∀ claims, ((verifyCompact token).run outside w).1 = .ok claims ↔ ∃ p header alg key bs,
      IsSigned find? token p header alg key ∧ Encodes p.claims bs ∧
        Json.Reader.anyValue.run bs = .ok claims) ∧
    (∀ outcome, ((verifyCompact token).run outside w).1 = outcome ↔ Judged find? token outcome) ∧
    (∀ p : Parts, p.Of token → Utf8.upTo? token.toList
      ((Utf8.encode p.header).length + 1 + (Utf8.encode p.claims).length) =
        some (beforeLastDot token.toList)) ∧
    Checked w token ((verifyCompact token).run outside w).2 := by
  intro find?
  obtain ⟨houtcome, hchecked⟩ := (verifyCompact_runs outside w token).ends
  have hjudged (outcome : Except KeyError Json.Value) :
      ((verifyCompact token).run outside w).1 = outcome ↔ Judged find? token outcome := by
    rw [houtcome]
    exact verdict_eq_iff
  refine ⟨fun claims => ?_, hjudged, fun p hp => hp.upTo?_eq, hchecked⟩
  rw [hjudged]
  constructor
  · intro h
    cases h with
    | accepted hsigned hbs hrun => exact ⟨_, _, _, _, _, hsigned, hbs, hrun⟩
  · rintro ⟨p, header, alg, key, bs, hsigned, hbs, hrun⟩
    exact .accepted hsigned hbs hrun

def Sample.signingKey : PrivateKey :=
  ((Rsa.PrivateKey.ofFactors? (Nat.pow 2 255 - 19) (Nat.pow 2 256 - 189) 65537).map .rsa).getD Fleet.Sample.key

def Sample.signingStore : Store :=
  Store.empty.insert { Fleet.Sample.record with
    encryptedKey := ⟨[], (Pkcs8.toDer Sample.signingKey).toOption.getD []⟩ }

def Sample.failing : Outside := fun moment =>
  if moment < 14 then Fleet.Sample.setting
  else { Fleet.Sample.setting with encryptor := .blocked true true, listFault := some .timeout }

def Sample.claims : Json.Value := .array [.number (.integer 7)]

def Sample.writing : Except KeyError String × World :=
  (signCompact .rs256 (.value Sample.claims)).run Sample.failing (.fresh Sample.signingStore)

theorem eq_ok_of_isSome {α : Type} {p : Except KeyError α × World} (h : p.1.toOption.isSome = true) :
    ∃ x, p = (.ok x, p.2) := by
  obtain ⟨outcome, w⟩ := p
  cases outcome with
  | error error => cases h
  | ok x => exact ⟨x, rfl⟩

/-- A token that a manager has written is accepted by it out of its snapshot, and by another manager over the same
store after a listing. -/
theorem written_token_is_accepted :
    let accepts (w : World) (token : String) : Prop := ∃ claims,
      Judged (fun kid => found? Sample.failing (fun s => s.get? kid) (.keyMiss kid) w) token (.ok claims)
    ∃ token, Sample.writing.1 = .ok token ∧ accepts Sample.writing.2 token ∧ ¬ Misses Sample.writing.2 token ∧
      accepts (.fresh Sample.signingStore) token ∧ Misses (.fresh Sample.signingStore) token := by
  intro accepts
  have hruns : Sample.writing.1.toOption.any (fun token =>
      let own := (verifyCompact token).run Sample.failing Sample.writing.2
      let other := (verifyCompact token).run Sample.failing (.fresh Sample.signingStore)
      own.1.toOption.isSome && own.2.listCalls == Sample.writing.2.listCalls &&
        other.1.toOption.isSome && other.2.listCalls == 1) = true := by decide +kernel
  have haccepts (w : World) (token : String) (h : ((verifyCompact token).run Sample.failing w).1.toOption.isSome) :
      accepts w token := by
    obtain ⟨claims, hclaims⟩ := eq_ok_of_isSome h
    exact ⟨claims, ((tokens_are_judged Sample.failing w token).2.1 (.ok claims)).mp (congrArg Prod.fst hclaims)⟩
  cases hwriting : Sample.writing.1 with
  | error error =>
    rw [hwriting] at hruns
    cases hruns
  | ok token =>
    simp only [hwriting, Except.toOption, Option.any_some, Bool.and_eq_true, beq_iff_eq] at hruns
    obtain ⟨⟨⟨hown, hkept⟩, hother⟩, hlisted⟩ := hruns
    obtain ⟨-, -, -, hhit⟩ := tokens_are_judged Sample.failing Sample.writing.2 token
    obtain ⟨-, -, -, hmiss⟩ := tokens_are_judged Sample.failing (.fresh Sample.signingStore) token
    refine ⟨token, rfl, haccepts _ _ hown, fun h => ?_, haccepts _ _ hother, ?_⟩
    · rw [hhit.miss h] at hkept
      omega
    · by_contra h
      rw [(hmiss.hit h).1] at hlisted
      cases hlisted

end Keyring.Jws
