import Keyring.Pkcs8
import Keyring.Proofs.Key.Verify
import Mathlib.Data.Nat.GCD.Basic

set_option autoImplicit false

namespace Keyring

theorem Modular.euclid_fst (m r s r' s' : Nat) : (euclid m r s r' s').1 = Nat.gcd r r' := by
  induction r' using Nat.strongRecOn generalizing r s s' with
  | ind r' ih =>
    rw [euclid]
    split
    · simp_all
    · rename_i hr
      rw [ih _ (Nat.mod_lt r (Nat.pos_of_ne_zero hr)), Nat.gcd_comm r r', Nat.gcd_rec r' r, Nat.gcd_comm]

theorem Modular.inverse?_of_coprime {m a : Nat} (h : m.Coprime a) : ∃ i, inverse? m a = some i := by
  have hgcd : (euclid m m 0 (a % m) (1 % m)).1 = 1 := by
    rw [euclid_fst, Nat.gcd_comm, ← Nat.gcd_rec]
    exact h
  exact ⟨_, if_pos hgcd⟩

theorem Modular.inverse?_lt {m a i : Nat} (hm : 0 < m) (h : inverse? m a = some i) : i < m := by
  unfold inverse? at h
  split at h
  split at h
  · cases h
    exact Nat.mod_lt _ hm
  · cases h

/-- What is required of an RSA key beyond its type: the factors have no divisor in common, the private
exponent is reduced, and the modulus has at most 2 ^ 24 bytes. -/
structure Rsa.PrivateKey.Regular (k : Rsa.PrivateKey) : Prop where
  coprime : k.p.Coprime k.q
  exponent_lt : k.privateExponent < k.modulus
  width_le : Bytes.width k.modulus ≤ 0x1000000

/-- The keys of the two curves need nothing more. -/
def PrivateKey.Regular (key : PrivateKey) : Prop := ∀ k, key = .rsa k → k.Regular

namespace Der

variable {tag : Tag} {content : Bytes}

theorem length_lt_write (tag : Tag) (content : Bytes) : content.length < (write tag content).length := by
  simp only [write, List.length_cons, List.length_append]
  omega

theorem write_length_le (h : content.length < lengthLimit) : (write tag content).length ≤ content.length + 6 := by
  have hw : Bytes.width content.length ≤ 4 := Bytes.width_le _ 4 (Nat.lt_of_lt_of_le h lengthLimit_le)
  simp only [write, lengthBytes, List.length_cons, List.length_append]
  split <;> simp <;> omega

theorem expect?_write (ht : isTag tag = true) (h : (write tag content).length < lengthLimit) (rest : Bytes) :
    expect? tag (write tag content ++ rest) = some (content, rest) := by
  rw [expect?, read?_write tag content rest ht (Nat.lt_trans (length_lt_write tag content) h)]
  simp

theorem only?_write (ht : isTag tag = true) (h : (write tag content).length < lengthLimit) :
    only? tag (write tag content) = some content := by
  have hexpect := expect?_write ht h []
  rw [List.append_nil] at hexpect
  rw [only?, hexpect]

theorem toNat_naturalBytes (bs : Bytes) : Bytes.toNat (naturalBytes bs) = Bytes.toNat bs := by
  rw [← Bytes.toNat_magnitude bs, naturalBytes]
  split
  · rename_i h
    rw [h]
    rfl
  · rfl

theorem natural?_writeNatural {n : Nat} (h : (writeNatural n).length < lengthLimit) (rest : Bytes) :
    natural? (writeNatural n ++ rest) = some (n, rest) := by
  rw [natural?, writeNatural, expect?_write rfl h rest]
  simp [magnitude_integerContent, toNat_naturalBytes, Bytes.toNat_minimal]

theorem writeNatural_length_le {n : Nat} (h : Bytes.width n + 1 < lengthLimit) :
    (writeNatural n).length ≤ Bytes.width n + 7 := by
  have hcontent := integerContent_length_le (Bytes.minimal n)
  rw [Bytes.minimal_length] at hcontent
  have hwrite : (writeNatural n).length ≤ _ := @write_length_le .integer _ (Nat.lt_of_le_of_lt hcontent h)
  omega

end Der

namespace Pkcs8

open Der (write writeNatural lengthLimit)

theorem contextElement?_write {number : UInt8} {tag : Der.Tag} {content : Bytes} (ht : Der.isTag tag = true)
    (hc : isContextTag tag = true) (hn : tag &&& 0x1F = number) (h : (write tag content).length < lengthLimit)
    (rest : Bytes) : contextElement? number (write tag content ++ rest) = some (some ⟨tag, content⟩, rest) := by
  have hread := Der.read?_write tag content rest ht (Nat.lt_trans (Der.length_lt_write tag content) h)
  have hskip : skipBelow? number ((write tag content ++ rest).length + 1) (write tag content ++ rest) =
      some (write tag content ++ rest) := by
    simp [skipBelow?, write, ht, hn]
  rw [contextElement?, hskip]
  simp only [write, List.cons_append, List.append_assoc] at hread ⊢
  simp [hc, hn, hread]

theorem contextElement?_above {number : UInt8} {tag : Der.Tag} {content : Bytes} (ht : Der.isTag tag = true)
    (hn : ¬ tag &&& 0x1F < number) (hne : tag &&& 0x1F ≠ number) (rest : Bytes) :
    contextElement? number (write tag content ++ rest) = some (none, write tag content ++ rest) := by
  have hskip : skipBelow? number ((write tag content ++ rest).length + 1) (write tag content ++ rest) =
      some (write tag content ++ rest) := by
    simp [skipBelow?, write, ht, hn]
  rw [contextElement?, hskip]
  simp [write, hne]

def writeParameters : Option Der.Element → Bytes
  | none => []
  | some e => write e.tag e.content

theorem algorithm?_write {oid : Oid} {parameters : Option Der.Element} (ho : Oid.ofContent? oid.content = some oid)
    (hp : ∀ e, parameters = some e → Der.isTag e.tag = true)
    (h : (oid.write ++ writeParameters parameters).length < lengthLimit) :
    algorithm? (oid.write ++ writeParameters parameters) = some (oid, parameters) := by
  rw [List.length_append] at h
  have hread : Oid.read? (oid.write ++ writeParameters parameters) = some (oid, writeParameters parameters) := by
    have hexpect := @Der.expect?_write .objectIdentifier oid.content rfl
      (by rw [Oid.write] at h; omega) (writeParameters parameters)
    rw [Oid.read?, Oid.write, hexpect]
    simp [ho]
  rw [algorithm?, hread]
  cases parameters with
  | none => rfl
  | some e =>
    have he := Der.read?_write e.tag e.content [] (hp e rfl)
      (Nat.lt_trans (Der.length_lt_write e.tag e.content) (by rw [writeParameters] at h; omega))
    rw [List.append_nil] at he
    simp only [writeParameters, Option.bind_eq_bind, Option.bind_some]
    rw [he]
    simp [write]

def writePublicKey : Option Bytes → Bytes
  | none => []
  | some bytes => write (contextTag false 1) (bits bytes)

theorem contextElement?_writePublicKey {publicKey : Option Bytes}
    (h : (writePublicKey publicKey).length < lengthLimit) : ∃ e,
      contextElement? 1 (writePublicKey publicKey) = some (e, []) ∧ publicKey? e = some publicKey := by
  cases publicKey with
  | none => exact ⟨none, rfl, rfl⟩
  | some bytes =>
    have helement := @contextElement?_write 1 (contextTag false 1) (bits bytes) rfl rfl rfl h []
    rw [List.append_nil] at helement
    exact ⟨_, helement, rfl⟩

theorem writeDocument_eq (oid : Oid) (parameters body : Bytes) (publicKey : Option Bytes) :
    writeDocument oid parameters body publicKey = write .sequence
      (writeNatural (if publicKey.isSome then 1 else 0) ++ (write .sequence (oid.write ++ parameters) ++
        (write .octetString body ++ writePublicKey publicKey))) := by
  cases publicKey <;> simp [writeDocument, writePublicKey]

theorem document?_writeDocument {oid : Oid} {parameters : Option Der.Element} {body : Bytes}
    {publicKey : Option Bytes} (ho : Oid.ofContent? oid.content = some oid)
    (hp : ∀ e, parameters = some e → Der.isTag e.tag = true)
    (h : (writeDocument oid (writeParameters parameters) body publicKey).length < lengthLimit) :
    document? (writeDocument oid (writeParameters parameters) body publicKey) =
      some ⟨oid, parameters, body, publicKey⟩ := by
  rw [writeDocument_eq] at h ⊢
  have hinner := Nat.lt_trans (Der.length_lt_write _ _) h
  have halgorithm := Der.length_lt_write .sequence (oid.write ++ writeParameters parameters)
  simp only [List.length_append] at hinner
  obtain ⟨e, he, hpublic⟩ := @contextElement?_writePublicKey publicKey (by omega)
  rw [document?, Der.only?_write rfl h]
  simp only [Option.bind_eq_bind, Option.bind_some]
  rw [Der.natural?_writeNatural (by omega)]
  simp only [Option.bind_some]
  rw [Der.expect?_write rfl (by omega)]
  simp only [Option.bind_some]
  rw [algorithm?_write ho hp (by omega)]
  simp only [Option.bind_some]
  rw [Der.expect?_write rfl (by omega)]
  simp only [Option.bind_some, he, hpublic]
  cases publicKey <;> simp [areExtensions]

theorem ed25519?_of_body (oid : Oid) (seed publicKey : Bytes) :
    ed25519? ⟨oid, none, 0x04 :: 0x20 :: seed, some publicKey⟩ =
      (Ed25519.PrivateKey.ofSeed? seed).bind fun key =>
        if publicKey = key.publicKey.bytes then some key else none := rfl

theorem ed25519?_write (key : Ed25519.PrivateKey) :
    ed25519? ⟨.ed25519, none, write .octetString key.seed, some key.publicKey.bytes⟩ = some key := by
  have hlength : Der.lengthBytes 32 = [0x20] := by decide
  have hbody : write .octetString key.seed = 0x04 :: 0x20 :: key.seed := by
    rw [write, key.length_seed, hlength]
    rfl
  have hseed : Ed25519.PrivateKey.ofSeed? key.seed = some key := dif_pos key.length_seed
  rw [hbody, ed25519?_of_body, hseed, Option.bind_some, if_pos rfl]

def ecdsaParts (key : P256.PrivateKey) : Bytes :=
  writeNatural 1 ++ (write .octetString (Bytes.ofNat 32 key.scalar) ++
    write (contextTag true 1) (write .bitString (bits key.publicKey.uncompressed)))

theorem ecdsa?_write {key : P256.PrivateKey} (h : (write .sequence (ecdsaParts key)).length < lengthLimit) :
    ecdsa? ⟨.ecPublicKey, some ⟨.objectIdentifier, Oid.prime256v1.content⟩, write .sequence (ecdsaParts key), none⟩ =
      some key := by
  have hinner := Nat.lt_trans (Der.length_lt_write _ _) h
  have hpoint := Der.length_lt_write (contextTag true 1) (write .bitString (bits key.publicKey.uncompressed))
  have hbits := Der.length_lt_write .bitString (bits key.publicKey.uncompressed)
  simp only [ecdsaParts, List.length_append] at hinner
  have hcurve : curve? ⟨.objectIdentifier, Oid.prime256v1.content⟩ = some .prime256v1 := by decide
  have hscalar : P256.PrivateKey.ofScalar? (Bytes.toNat (Bytes.ofNat 32 key.scalar)) = some key := by
    have hlt : key.scalar < Nat.pow 256 32 := Nat.lt_trans key.below (by decide)
    rw [Bytes.toNat_ofNat, Nat.mod_eq_of_lt hlt]
    exact dif_pos ⟨key.positive, key.below⟩
  have hnamed := @contextElement?_above 0 (contextTag true 1)
    (write .bitString (bits key.publicKey.uncompressed)) rfl (by decide) (by decide) []
  have helement := @contextElement?_write 1 (contextTag true 1)
    (write .bitString (bits key.publicKey.uncompressed)) rfl rfl rfl (by omega) []
  have hinside := Der.read?_write .bitString (bits key.publicKey.uncompressed) [] rfl (by omega)
  rw [List.append_nil] at hnamed helement hinside
  rw [ecdsa?, Der.only?_write rfl h, ecdsaParts]
  simp only [Option.bind_eq_bind, Option.bind_some, hcurve]
  rw [Der.natural?_writeNatural (by omega)]
  simp only [Option.bind_some]
  rw [Der.expect?_write rfl (by omega)]
  simp only [Option.bind_some, hnamed, helement, explicit?, hinside]
  simp [hscalar, point?, Der.wholeBytes?, bits]

theorem naturals?_write {ns : List Nat} (h : (ns.flatMap writeNatural).length < lengthLimit) (rest : Bytes) :
    naturals? ns.length (ns.flatMap writeNatural ++ rest) = some (ns, rest) := by
  induction ns with
  | nil => rfl
  | cons n ns ih =>
    rw [List.flatMap_cons, List.length_append] at h
    rw [List.length_cons, naturals?, List.flatMap_cons, List.append_assoc, Der.natural?_writeNatural (by omega)]
    simp [ih (by omega)]

theorem rsa?_write {key : Rsa.PrivateKey} {numbers : List Nat} (hn : rsaNumbers? key = some numbers)
    (h : (write .sequence (numbers.flatMap writeNatural)).length < lengthLimit) :
    rsa? ⟨.rsaEncryption, some ⟨.null, []⟩, write .sequence (numbers.flatMap writeNatural), none⟩ = some key := by
  obtain ⟨c, -, rfl⟩ := Option.map_eq_some_iff.mp hn
  have hkey : Rsa.PrivateKey.ofNumbers? key.modulus key.publicExponent key.privateExponent key.p key.q = some key :=
    dif_pos key.consistent
  have hnaturals := naturals?_write (Nat.lt_trans (Der.length_lt_write _ _) h) []
  rw [List.append_nil] at hnaturals
  rw [rsa?, Der.only?_write rfl h]
  simp only [Option.bind_eq_bind, Option.bind_some]
  refine (congrArg (Option.bind · _) hnaturals).trans ?_
  exact hkey

theorem document?_writeEd25519 {key : Ed25519.PrivateKey} (h : (writeEd25519 key).length < lengthLimit) :
    document? (writeEd25519 key) =
      some ⟨.ed25519, none, write .octetString key.seed, some key.publicKey.bytes⟩ :=
  @document?_writeDocument _ none _ _ (by decide) nofun h

theorem writeEcdsa_eq (key : P256.PrivateKey) : writeEcdsa key = writeDocument .ecPublicKey
    (writeParameters (some ⟨.objectIdentifier, Oid.prime256v1.content⟩)) (write .sequence (ecdsaParts key)) none := by
  simp [writeEcdsa, writeParameters, Oid.write, ecdsaParts]

theorem document?_writeEcdsa {key : P256.PrivateKey} (h : (writeEcdsa key).length < lengthLimit) :
    document? (writeEcdsa key) = some ⟨.ecPublicKey, some ⟨.objectIdentifier, Oid.prime256v1.content⟩,
      write .sequence (ecdsaParts key), none⟩ := by
  rw [writeEcdsa_eq] at h ⊢
  exact document?_writeDocument (by decide) (by simp; decide) h

theorem document?_writeRsa {numbers : List Nat} (h : (writeDocument .rsaEncryption (write .null [])
    (write .sequence (numbers.flatMap writeNatural)) none).length < lengthLimit) :
    document? (writeDocument .rsaEncryption (write .null []) (write .sequence (numbers.flatMap writeNatural)) none) =
      some ⟨.rsaEncryption, some ⟨.null, []⟩, write .sequence (numbers.flatMap writeNatural), none⟩ :=
  @document?_writeDocument _ (some ⟨.null, []⟩) _ _ (by decide) (by simp; decide) h

theorem body_length_lt (oid : Oid) (parameters body : Bytes) (publicKey : Option Bytes) :
    body.length < (writeDocument oid parameters body publicKey).length := by
  have hbody := Der.length_lt_write .octetString body
  have hdocument := Der.length_lt_write .sequence
    (writeNatural (if publicKey.isSome then 1 else 0) ++ (write .sequence (oid.write ++ parameters) ++
        (write .octetString body ++ writePublicKey publicKey)))
  rw [writeDocument_eq]
  simp only [List.length_append] at hdocument
  omega

def der? : PrivateKey → Option Bytes
  | .rsa key => writeRsa? key
  | .ecdsa key => some (writeEcdsa key)
  | .ed25519 key => some (writeEd25519 key)

theorem toDer_eq (key : PrivateKey) : toDer key = match der? key with
    | none => .error (.internal .keyEncoding)
    | some der => if der.length < lengthLimit then .ok der else .error (.internal .keyEncoding) := by
  cases key <;> rfl

theorem toDer_eq_ok_iff {key : PrivateKey} {der : Bytes} :
    toDer key = .ok der ↔ der? key = some der ∧ der.length < lengthLimit := by
  rw [toDer_eq]
  cases der? key with
  | none => simp
  | some der' =>
    simp only [Option.some.injEq]
    constructor
    · intro h
      split at h
      · rename_i hlt
        cases h
        exact ⟨rfl, hlt⟩
      · cases h
    · rintro ⟨rfl, hlt⟩
      rw [if_pos hlt]

theorem ofDer_toDer {key : PrivateKey} {der : Bytes} (h : toDer key = .ok der) : ofDer der = .ok key := by
  obtain ⟨hder, hlt⟩ := toDer_eq_ok_iff.mp h
  cases key with
  | ed25519 k =>
    cases hder
    rw [ofDer, document?_writeEd25519 hlt]
    simp [ed25519?_write]
  | ecdsa k =>
    cases hder
    have hbody : (write .sequence (ecdsaParts k)).length < lengthLimit := by
      rw [writeEcdsa_eq] at hlt
      exact Nat.lt_trans (body_length_lt _ _ _ _) hlt
    have hne : Oid.ecPublicKey ≠ .ed25519 := by decide
    rw [ofDer, document?_writeEcdsa hlt]
    simp [ecdsa?_write hbody, hne]
  | rsa k =>
    obtain ⟨numbers, hnumbers, rfl⟩ := Option.map_eq_some_iff.mp hder
    have hbody := Nat.lt_trans (body_length_lt _ _ _ _) hlt
    have hne : Oid.rsaEncryption ≠ .ed25519 ∧ Oid.rsaEncryption ≠ .ecPublicKey := by decide
    rw [ofDer, document?_writeRsa hlt]
    simp [rsa?_write hnumbers hbody, hne]

theorem writeDocument_length_le {oid : Oid} {parameters body : Bytes} {publicKey : Option Bytes}
    (h : oid.content.length + parameters.length + body.length + (publicKey.getD []).length + 40 < lengthLimit) :
    (writeDocument oid parameters body publicKey).length ≤
      oid.content.length + parameters.length + body.length + (publicKey.getD []).length + 46 := by
  have hversion : (writeNatural (if publicKey.isSome then 1 else 0)).length ≤ 8 := by
    split <;> decide
  have hoid : (oid.write).length ≤ _ := Der.write_length_le (by omega)
  have halgorithm : (write .sequence (oid.write ++ parameters)).length ≤ oid.content.length + parameters.length + 12 := by
    refine Nat.le_trans (Der.write_length_le ?_) ?_ <;> rw [List.length_append] <;> omega
  have hbody : (write .octetString body).length ≤ _ := Der.write_length_le (by omega)
  have hpublic : (writePublicKey publicKey).length ≤ (publicKey.getD []).length + 7 := by
    cases publicKey with
    | none => exact Nat.zero_le _
    | some bytes =>
      refine Nat.le_trans (Der.write_length_le ?_) ?_ <;> simp only [bits, List.length_cons, Option.getD_some] at h ⊢ <;> omega
  rw [writeDocument_eq]
  refine Nat.le_trans (Der.write_length_le ?_) ?_ <;> simp only [List.length_append] <;> omega

theorem flatMap_writeNatural_length_le {ns : List Nat} {width : Nat} (h : ∀ n ∈ ns, Bytes.width n ≤ width)
    (hw : width + 1 < lengthLimit) : (ns.flatMap writeNatural).length ≤ ns.length * (width + 7) := by
  induction ns with
  | nil => simp
  | cons n ns ih =>
    have hn := h n List.mem_cons_self
    have hwrite := @Der.writeNatural_length_le n (by omega)
    have hmore := ih fun m hm => h m (List.mem_cons_of_mem n hm)
    rw [List.flatMap_cons, List.length_append, List.length_cons, Nat.succ_mul]
    omega

theorem rsaNumbers_le {key : Rsa.PrivateKey} (h : key.Regular) {numbers : List Nat}
    (hn : rsaNumbers? key = some numbers) : numbers.length = 9 ∧ ∀ n ∈ numbers, n ≤ key.modulus := by
  obtain ⟨c, hc, rfl⟩ := Option.map_eq_some_iff.mp hn
  obtain ⟨hfactors, hp, hq⟩ := key.consistent.factors
  have hple : key.p ≤ key.modulus := hfactors ▸ Nat.le_mul_of_pos_right _ (by omega)
  have hqle : key.q ≤ key.modulus := hfactors ▸ Nat.le_mul_of_pos_left _ (by omega)
  have hcoefficient : c < key.p := Modular.inverse?_lt (by omega) hc
  have hexponentP : key.exponentP < key.p - 1 := Nat.mod_lt _ (by omega)
  have hexponentQ : key.exponentQ < key.q - 1 := Nat.mod_lt _ (by omega)
  have hexponent := key.consistent.exponent_range.2.2
  have hprivate := h.exponent_lt
  refine ⟨rfl, ?_⟩
  simp only [List.mem_cons, List.not_mem_nil, or_false, forall_eq_or_imp, forall_eq]
  refine ⟨?_, ?_, ?_, ?_, ?_, ?_, ?_, ?_, ?_⟩ <;> omega

theorem writeEd25519_length_lt (key : Ed25519.PrivateKey) : (writeEd25519 key).length < lengthLimit := by
  have hlimit : lengthLimit = 0x10000000 := rfl
  have hoid : Oid.ed25519.content.length = 3 := rfl
  have hseed := key.length_seed
  have hpublic : ((some key.publicKey.bytes).getD []).length = 32 := key.publicKey.length_bytes
  have hbody : (write .octetString key.seed).length ≤ key.seed.length + 6 := Der.write_length_le (by omega)
  refine Nat.lt_of_le_of_lt (writeDocument_length_le ?_) ?_ <;> rw [List.length_nil] <;> omega

theorem writeEcdsa_length_lt (key : P256.PrivateKey) : (writeEcdsa key).length < lengthLimit := by
  have hlimit : lengthLimit = 0x10000000 := rfl
  have hoid : Oid.ecPublicKey.content.length = 7 := rfl
  have hparameters : (writeParameters (some ⟨.objectIdentifier, Oid.prime256v1.content⟩)).length = 10 := rfl
  have hversion : (writeNatural 1).length = 3 := by decide
  have hpoint : (bits key.publicKey.uncompressed).length = 66 := by simp [bits, P256.PublicKey.uncompressed]
  have hscalar : (write .octetString (Bytes.ofNat 32 key.scalar)).length ≤ _ :=
    Der.write_length_le (by rw [Bytes.ofNat_length]; omega)
  have hbits : (write .bitString (bits key.publicKey.uncompressed)).length ≤ _ := Der.write_length_le (by omega)
  have hpublic : (write (contextTag true 1) (write .bitString (bits key.publicKey.uncompressed))).length ≤ _ :=
    Der.write_length_le (by omega)
  have hparts : (ecdsaParts key).length ≤ 122 := by
    rw [Bytes.ofNat_length] at hscalar
    simp only [ecdsaParts, List.length_append]
    omega
  have hbody : (write .sequence (ecdsaParts key)).length ≤ _ := Der.write_length_le (by omega)
  rw [writeEcdsa_eq]
  refine Nat.lt_of_le_of_lt (writeDocument_length_le ?_) ?_ <;> rw [Option.getD_none, List.length_nil] <;> omega

theorem writeRsa_length_lt {key : Rsa.PrivateKey} (h : key.Regular) {numbers : List Nat}
    (hn : rsaNumbers? key = some numbers) : (writeDocument .rsaEncryption (write .null [])
      (write .sequence (numbers.flatMap writeNatural)) none).length < lengthLimit := by
  have hlimit : lengthLimit = 0x10000000 := rfl
  have hoid : Oid.rsaEncryption.content.length = 9 := rfl
  have hnull : (write .null []).length = 2 := rfl
  obtain ⟨hcount, hle⟩ := rsaNumbers_le h hn
  have hnumbers := @flatMap_writeNatural_length_le _ 0x1000000
    (fun n hmem => Nat.le_trans (Bytes.width_mono (hle n hmem)) h.width_le) (by omega)
  rw [hcount] at hnumbers
  have hbody : (write .sequence (numbers.flatMap writeNatural)).length ≤ _ := Der.write_length_le (by omega)
  refine Nat.lt_of_le_of_lt (writeDocument_length_le ?_) ?_ <;> rw [Option.getD_none, List.length_nil] <;> omega

theorem exists_toDer {key : PrivateKey} (h : key.Regular) : ∃ der, toDer key = .ok der := by
  cases key with
  | ed25519 k => exact ⟨_, toDer_eq_ok_iff.mpr ⟨rfl, writeEd25519_length_lt k⟩⟩
  | ecdsa k => exact ⟨_, toDer_eq_ok_iff.mpr ⟨rfl, writeEcdsa_length_lt k⟩⟩
  | rsa k =>
    obtain ⟨c, hc⟩ := Modular.inverse?_of_coprime (h k rfl).coprime
    obtain ⟨numbers, hnumbers⟩ : ∃ numbers, rsaNumbers? k = some numbers :=
      ⟨_, Option.map_eq_some_iff.mpr ⟨c, hc, rfl⟩⟩
    exact ⟨_, toDer_eq_ok_iff.mpr ⟨Option.map_eq_some_iff.mpr ⟨numbers, hnumbers, rfl⟩,
      writeRsa_length_lt (h k rfl) hnumbers⟩⟩

end Pkcs8
end Keyring
