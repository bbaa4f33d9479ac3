import Keyring.Key
import Keyring.Oid

/-!
Private keys as documents: a version, the algorithm, the key in the form of its kind, and possibly
the public key. `ofDer` reads a document and `toDer` writes one.
-/
set_option autoImplicit false

namespace Keyring.Pkcs8

structure Document where
  oid : Oid
  parameters : Option Der.Element
  body : Bytes
  publicKey : Option Bytes

def contextTag (isConstructed : Bool) (number : UInt8) : Der.Tag :=
  (if isConstructed then 0xA0 else 0x80) ||| number

def isContextTag (tag : Der.Tag) : Bool := 0x80 ≤ tag && tag < 0xC0

/-- Passes over the context-specific elements with numbers below the given one. -/
def skipBelow? (number : UInt8) : (fuel : Nat) → Bytes → Option Bytes
  | 0, _ => none
  | fuel + 1, bs =>
    match bs with
    | [] => some []
    | tag :: _ =>
      if !Der.isTag tag then none
      else if isContextTag tag && tag &&& 0x1F < number then
        (Der.read? bs).bind (fun e => skipBelow? number fuel e.2)
      else some bs

/-- The first element, if it is the context-specific one with the given number. -/
def contextElement? (number : UInt8) (bs : Bytes) : Option (Option Der.Element × Bytes) := do
  let bs ← skipBelow? number (bs.length + 1) bs
  match bs with
  | [] => some (none, [])
  | tag :: _ =>
    if isContextTag tag && tag &&& 0x1F = number then
      let (e, rest) ← Der.read? bs
      some (some e, rest)
    else some (none, bs)

/-- Whether bytes are a run of constructed context-specific elements with one element inside each. -/
def areExtensions : (fuel : Nat) → Bytes → Bool
  | 0, _ => false
  | fuel + 1, bs =>
    match bs with
    | [] => true
    | _ :: _ =>
      match Der.read? bs with
      | none => false
      | some (e, rest) =>
        e.tag &&& 0xE0 = 0xA0 && (Der.read? e.content).any (fun inner => inner.2.isEmpty) &&
          areExtensions fuel rest

def algorithm? (bs : Bytes) : Option (Oid × Option Der.Element) := do
  let (oid, rest) ← Oid.read? bs
  match rest with
  | [] => some (oid, none)
  | _ :: _ =>
    let (e, rest) ← Der.read? rest
    if rest = [] then some (oid, some e) else none

def publicKey? (e : Option Der.Element) : Option (Option Bytes) :=
  match e with
  | none => some none
  | some e => if e.tag = contextTag false 1 then (Der.wholeBytes? e.content).map some else none

/-- Reads the outer structure. There is a public key exactly in version one. -/
def document? (der : Bytes) : Option Document := do
  let bs ← Der.only? .sequence der
  let (version, bs) ← Der.natural? bs
  let (algorithm, bs) ← Der.expect? .sequence bs
  let (oid, parameters) ← algorithm? algorithm
  let (body, bs) ← Der.expect? .octetString bs
  let (e, bs) ← contextElement? 1 bs
  let publicKey ← publicKey? e
  if version ≤ 1 ∧ (version = 1 ↔ publicKey.isSome) ∧ areExtensions (bs.length + 1) bs then
    some ⟨oid, parameters, body, publicKey⟩
  else none

def ed25519? (d : Document) : Option Ed25519.PrivateKey := do
  if d.parameters.isSome then none
  match d.body with
  | 0x04 :: 0x20 :: seed =>
    let key ← Ed25519.PrivateKey.ofSeed? seed
    match d.publicKey with
    | none => some key
    | some bytes => if bytes = key.publicKey.bytes then some key else none
  | _ => none

def explicit? (number : UInt8) (e : Der.Element) : Option Der.Element := do
  if e.tag ≠ contextTag true number then none
  let (inner, rest) ← Der.read? e.content
  if rest = [] then some inner else none

def curve? (e : Der.Element) : Option Oid :=
  if e.tag = .objectIdentifier then Oid.ofContent? e.content else none

def point? (e : Der.Element) : Option Bytes :=
  if e.tag = .bitString then Der.wholeBytes? e.content else none

def ecdsa? (d : Document) : Option P256.PrivateKey := do
  if d.parameters.bind curve? ≠ some .prime256v1 then none
  let bs ← Der.only? .sequence d.body
  let (version, bs) ← Der.natural? bs
  let (scalar, bs) ← Der.expect? .octetString bs
  let (named, bs) ← contextElement? 0 bs
  match named with
  | none => some ()
  | some e => ((explicit? 0 e).bind curve?).map (fun _ => ())
  let (e, bs) ← contextElement? 1 bs
  if version ≠ 1 ∨ bs ≠ [] ∨ scalar.length < 24 ∨ 32 < scalar.length then none
  let key ← P256.PrivateKey.ofScalar? (Bytes.toNat scalar)
  match e with
  | none => some key
  | some e =>
    let point ← (explicit? 1 e).bind point?
    if point = key.publicKey.uncompressed ∨ point = key.publicKey.compressed then some key else none

def naturals? : (count : Nat) → Bytes → Option (List Nat × Bytes)
  | 0, bs => some ([], bs)
  | count + 1, bs => do
    let (n, bs) ← Der.natural? bs
    let (ns, bs) ← naturals? count bs
    some (n :: ns, bs)

def rsa? (d : Document) : Option Rsa.PrivateKey := do
  if d.parameters ≠ some ⟨.null, []⟩ then none
  let bs ← Der.only? .sequence d.body
  match ← naturals? 9 bs with
  | ([0, modulus, publicExponent, privateExponent, p, q, _, _, _], []) =>
    Rsa.PrivateKey.ofNumbers? modulus publicExponent privateExponent p q
  | _ => none

def ofDer (der : Bytes) : Except KeyError PrivateKey :=
  match document? der with
  | none => .error (.decode .document)
  | some d =>
    let body? : Option (Option PrivateKey) :=
      if d.oid = .ed25519 then some ((ed25519? d).map .ed25519)
      else if d.oid = .ecPublicKey then some ((ecdsa? d).map .ecdsa)
      else if d.oid = .rsaEncryption then some ((rsa? d).map .rsa)
      else none
    match body? with
    | none => .error (.decode (.keyKind d.oid.text))
    | some none => .error (.decode .keyBody)
    | some (some key) => .ok key

def bits (bs : Bytes) : Bytes := 0 :: bs

def writeDocument (oid : Oid) (parameters body : Bytes) (publicKey : Option Bytes) : Bytes :=
  Der.write .sequence <|
    Der.writeNatural (if publicKey.isSome then 1 else 0) ++
    Der.write .sequence (oid.write ++ parameters) ++
    Der.write .octetString body ++
    (match publicKey with
      | none => []
      | some bytes => Der.write (contextTag false 1) (bits bytes))

def writeEd25519 (key : Ed25519.PrivateKey) : Bytes :=
  writeDocument .ed25519 [] (Der.write .octetString key.seed) (some key.publicKey.bytes)

def writeEcdsa (key : P256.PrivateKey) : Bytes :=
  let body := Der.writeNatural 1 ++ Der.write .octetString (Bytes.ofNat 32 key.scalar) ++
    Der.write (contextTag true 1) (Der.write .bitString (bits key.publicKey.uncompressed))
  writeDocument .ecPublicKey Oid.prime256v1.write (Der.write .sequence body) none

/-- The numbers of an RSA key; nothing when the second factor has no inverse modulo the first. -/
def rsaNumbers? (key : Rsa.PrivateKey) : Option (List Nat) :=
  key.coefficient?.map fun c =>
    [0, key.modulus, key.publicExponent, key.privateExponent, key.p, key.q, key.exponentP, key.exponentQ, c]

def writeRsa? (key : Rsa.PrivateKey) : Option Bytes :=
  (rsaNumbers? key).map fun numbers =>
    writeDocument .rsaEncryption (Der.write .null [])
      (Der.write .sequence (numbers.flatMap Der.writeNatural)) none

def toDer (key : PrivateKey) : Except KeyError Bytes :=
  let der? := match key with
    | .rsa key => writeRsa? key
    | .ecdsa key => some (writeEcdsa key)
    | .ed25519 key => some (writeEd25519 key)
  match der? with
  | none => .error (.internal .keyEncoding)
  | some der => if der.length < Der.lengthLimit then .ok der else .error (.internal .keyEncoding)

end Keyring.Pkcs8
