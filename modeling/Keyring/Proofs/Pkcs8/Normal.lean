import Keyring.Proofs.Except
import Keyring.Proofs.Pkcs8.RoundTrip

set_option autoImplicit false

namespace Keyring

theorem Modular.coprime_of_inverse? {m a i : Nat} (h : inverse? m a = some i) : m.Coprime a := by
  unfold inverse? at h
  split at h
  rename_i g s heq
  split at h
  · rename_i hone
    have hgcd : g = Nat.gcd m (a % m) := by rw [← euclid_fst m m 0 (a % m) (1 % m), heq]
    rw [Nat.Coprime, Nat.gcd_rec, Nat.gcd_comm, ← hgcd, hone]
  · cases h

namespace Pkcs8

open Der (lengthLimit)

variable {d : Document} {der : Bytes} {key : PrivateKey} {error : KeyError}

/-- A document holds a key in the form of the kind that its identifier names. -/
inductive Document.Holds (d : Document) : PrivateKey → Prop where
  | ed25519 {k : Ed25519.PrivateKey} (oid : d.oid = .ed25519) (body : ed25519? d = some k) : d.Holds (.ed25519 k)
  | ecdsa {k : P256.PrivateKey} (oid : d.oid = .ecPublicKey) (body : ecdsa? d = some k) : d.Holds (.ecdsa k)
  | rsa {k : Rsa.PrivateKey} (oid : d.oid = .rsaEncryption) (body : rsa? d = some k) : d.Holds (.rsa k)

theorem holds_of_ofDer (h : ofDer der = .ok key) : ∃ d, document? der = some d ∧ d.Holds key := by
  unfold ofDer at h
  cases hd : document? der with
  | none => simp [hd] at h
  | some d =>
    refine ⟨d, rfl, ?_⟩
    simp only [hd] at h
    split at h
    · cases h
    · cases h
    · rename_i k hbody
      cases h
      split at hbody
      · rename_i hoid
        obtain ⟨k, hk, rfl⟩ := Option.map_eq_some_iff.mp (Option.some.inj hbody)
        exact .ed25519 hoid hk
      split at hbody
      · rename_i hoid
        obtain ⟨k, hk, rfl⟩ := Option.map_eq_some_iff.mp (Option.some.inj hbody)
        exact .ecdsa hoid hk
      split at hbody
      · rename_i hoid
        obtain ⟨k, hk, rfl⟩ := Option.map_eq_some_iff.mp (Option.some.inj hbody)
        exact .rsa hoid hk
      · cases hbody

def algorithmOf : PrivateKey → Oid × Option Der.Element
  | .rsa _ => (.rsaEncryption, some ⟨.null, []⟩)
  | .ecdsa _ => (.ecPublicKey, some ⟨.objectIdentifier, Oid.prime256v1.content⟩)
  | .ed25519 _ => (.ed25519, none)

def publicKeyOf : PrivateKey → Option Bytes
  | .ed25519 k => some k.publicKey.bytes
  | .rsa _ | .ecdsa _ => none

theorem parameters_of_ed25519? {k : Ed25519.PrivateKey} (h : ed25519? d = some k) : d.parameters = none := by
  unfold ed25519? at h
  cases hp : d.parameters with
  | none => rfl
  | some e => simp [hp] at h

theorem parameters_of_ecdsa? {k : P256.PrivateKey} (h : ecdsa? d = some k) :
    d.parameters = some ⟨.objectIdentifier, Oid.prime256v1.content⟩ := by
  have hcurve : d.parameters.bind curve? = some .prime256v1 := by
    by_contra hne
    simp [ecdsa?, hne] at h
  obtain ⟨⟨tag, content⟩, hp, he⟩ := Option.bind_eq_some_iff.mp hcurve
  simp only [curve?, Oid.ofContent?] at he
  split at he
  · rename_i htag
    split at he
    · obtain rfl := htag
      rw [hp, ← Option.some.inj he]
    · cases he
  · cases he

theorem parameters_of_rsa? {k : Rsa.PrivateKey} (h : rsa? d = some k) : d.parameters = some ⟨.null, []⟩ := by
  by_contra hne
  simp [rsa?, hne] at h

theorem Document.Holds.algorithm (h : d.Holds key) : (d.oid, d.parameters) = algorithmOf key := by
  cases h with
  | ed25519 oid body => rw [oid, parameters_of_ed25519? body]; rfl
  | ecdsa oid body => rw [oid, parameters_of_ecdsa? body]; rfl
  | rsa oid body => rw [oid, parameters_of_rsa? body]; rfl

theorem document?_toDer (h : toDer key = .ok der) :
    ∃ d, document? der = some d ∧ d.Holds key ∧ d.publicKey = publicKeyOf key := by
  obtain ⟨d, hd, hholds⟩ := holds_of_ofDer (ofDer_toDer h)
  refine ⟨d, hd, hholds, ?_⟩
  obtain ⟨hder, hlt⟩ := toDer_eq_ok_iff.mp h
  cases key with
  | ed25519 k =>
    cases hder
    cases hd.symm.trans (document?_writeEd25519 hlt)
    rfl
  | ecdsa k =>
    cases hder
    cases hd.symm.trans (document?_writeEcdsa hlt)
    rfl
  | rsa k =>
    obtain ⟨numbers, -, rfl⟩ := Option.map_eq_some_iff.mp hder
    cases hd.symm.trans (document?_writeRsa hlt)
    rfl

theorem toDer_eq_error_iff : toDer key = .error error ↔
    error = .internal .keyEncoding ∧ ∀ der, der? key = some der → lengthLimit ≤ der.length := by
  rw [toDer_eq]
  cases der? key with
  | none => simp [eq_comm]
  | some der =>
    by_cases hlt : der.length < lengthLimit
    · simp [hlt]
    · simp [hlt, Nat.not_lt.mp hlt, eq_comm]

theorem writeRsa?_eq_none_iff {k : Rsa.PrivateKey} : writeRsa? k = none ↔ ¬ k.p.Coprime k.q := by
  rw [writeRsa?, Option.map_eq_none_iff, rsaNumbers?, Option.map_eq_none_iff, Rsa.PrivateKey.coefficient?]
  constructor
  · intro hnone hcoprime
    obtain ⟨i, hi⟩ := Modular.inverse?_of_coprime hcoprime
    rw [hnone] at hi
    cases hi
  · intro hshared
    rw [Option.eq_none_iff_forall_ne_some]
    exact fun i hi => hshared (Modular.coprime_of_inverse? hi)

/-- Only an RSA key cannot be written: its factors have a divisor in common, or it is too long. -/
theorem toDer_eq_error_iff_rsa : toDer key = .error error ↔ error = .internal .keyEncoding ∧
    ∃ k, key = .rsa k ∧ (¬ k.p.Coprime k.q ∨ ∃ der, writeRsa? k = some der ∧ lengthLimit ≤ der.length) := by
  rw [toDer_eq_error_iff]
  refine and_congr_right fun _ => ?_
  cases key with
  | ed25519 k =>
    have hlt := writeEd25519_length_lt k
    simp [der?, hlt]
  | ecdsa k =>
    have hlt := writeEcdsa_length_lt k
    simp [der?, hlt]
  | rsa k =>
    simp only [der?, PrivateKey.rsa.injEq, exists_eq_left', ← writeRsa?_eq_none_iff]
    cases writeRsa? k <;> simp

/-- What a key is written to, from whatever document it has been read, is its one normal document: it names the
same algorithm and has a public key behind it exactly for Ed25519; it reads back as a key that is the same in all
respects, and this key is written to it. Writing fails for no key but an RSA key whose factors have a divisor in
common or whose document is too long. -/
theorem documents_are_normalized_once {der : Bytes} {key : PrivateKey} (h : ofDer der = .ok key) :
    (∀ normal, toDer key = .ok normal →
      (∃ key', ofDer normal = .ok key' ∧ key'.alg = key.alg ∧ key'.publicKey = key.publicKey ∧
        (∀ message, key'.sign message = key.sign message) ∧ toDer key' = .ok normal) ∧
      ∃ d d', document? der = some d ∧ document? normal = some d' ∧ d'.oid = d.oid ∧
        d'.parameters = d.parameters ∧ d'.publicKey = publicKeyOf key) ∧
    ∀ error, toDer key = .error error ↔ error = .internal .keyEncoding ∧
      ∃ k, key = .rsa k ∧ (¬ k.p.Coprime k.q ∨ ∃ long, writeRsa? k = some long ∧ lengthLimit ≤ long.length) := by
  refine ⟨fun normal hnormal => ⟨⟨key, ofDer_toDer hnormal, rfl, rfl, fun _ => rfl, hnormal⟩, ?_⟩,
    fun _ => toDer_eq_error_iff_rsa⟩
  obtain ⟨d, hd, hholds⟩ := holds_of_ofDer h
  obtain ⟨d', hd', hholds', hpublic⟩ := document?_toDer hnormal
  obtain ⟨hoid, hparameters⟩ := Prod.mk.inj (hholds'.algorithm.trans hholds.algorithm.symm)
  exact ⟨d, d', hd, hd', hoid, hparameters, hpublic⟩

/-- A document of version zero with an Ed25519 key, one for each byte, without its public key. -/
def Sample.document (n : UInt8) : Bytes :=
  [0x30, 0x2e, 0x02, 0x01, 0x00, 0x30, 0x05, 0x06, 0x03, 0x2b, 0x65, 0x70, 0x04, 0x22, 0x04, 0x20] ++ List.replicate 32 n

/-- Such a document and its normal document, which has the public key. -/
theorem document_of_version_zero_is_normalized :
    let key : PrivateKey := .ed25519 ⟨List.replicate 32 7, rfl⟩
    let der := Sample.document 7
    ofDer der = .ok key ∧ ∃ normal, toDer key = .ok normal ∧ normal ≠ der ∧
      ∃ key', ofDer normal = .ok key' ∧ key'.publicKey = key.publicKey ∧ toDer key' = .ok normal := by
  intro key der
  have hread : ofDer der = .ok key := eq_ok_of_toOption (by decide +kernel)
  obtain ⟨hnormal, -⟩ := documents_are_normalized_once hread
  obtain ⟨normal, hwritten⟩ : ∃ normal, toDer key = .ok normal := exists_toDer nofun
  obtain ⟨⟨key', hread', -, hpublic, -, hwritten'⟩, -, d', -, hd', -, -, hbehind⟩ := hnormal normal hwritten
  refine ⟨hread, normal, hwritten, ?_, key', hread', hpublic, hwritten'⟩
  rintro rfl
  have hnone : (document? der).bind Document.publicKey = none := by decide +kernel
  rw [hd', Option.bind_some, hbehind] at hnone
  cases hnone

end Pkcs8
end Keyring
