import Keyring.Manager.Sign

set_option autoImplicit false

namespace Keyring.Jws

structure Header where
  alg : String
  kid : String
  typ : Option String
  deriving DecidableEq, Repr

namespace Header

def toJson (h : Header) : Json.Value :=
  .object ([("alg", .string h.alg), ("kid", .string h.kid)] ++ Jwk.optionalMember "typ" h.typ)

structure Draft where
  alg : Option String := none
  kid : Option String := none
  typ : Option (Option String) := none

def shape : Json.Shape Draft where
  name := "JwsHeader"
  isStrict := false
  members := [
    ⟨"alg", .required, fun d => d.alg.isSome, (fun v d => { d with alg := some v }) <$> Json.Reader.string⟩,
    ⟨"kid", .required, fun d => d.kid.isSome, (fun v d => { d with kid := some v }) <$> Json.Reader.string⟩,
    ⟨"typ", .defaulted, fun d => d.typ.isSome,
      (fun v d => { d with typ := some v }) <$> Json.Reader.nullable Json.Reader.string⟩]

def read : Json.Reader Header := do
  let d ← shape.read {}
  match d.alg, d.kid with
  | some alg, some kid => pure ⟨alg, kid, d.typ.join⟩
  | _, _ => Json.Reader.fail .malformed

end Header

/-- What a token is to say: a value, or entries whose keys are values, which must be strings. -/
inductive Claims where
  | value (v : Json.Value)
  | entries (pairs : List (Json.Value × Json.Value))

def stringKeys? : List (Json.Value × Json.Value) → Option (List (String × Json.Value))
  | [] => some []
  | (.string k, v) :: more => (stringKeys? more).map ((k, v) :: ·)
  | _ :: _ => none

/-- The claims as a JSON text. -/
def Claims.write : Claims → Except Source Bytes
  | .value v => .ok (Utf8.encode v.text)
  | .entries pairs =>
    match stringKeys? pairs with
    | none => .error (.text "key must be a string")
    | some members => .ok (Utf8.encode (Json.Value.object members).text)

def splitDots : List Char → List (List Char)
  | [] => [[]]
  | c :: cs =>
    if c = '.' then [] :: splitDots cs
    else match splitDots cs with
      | [] => [[c]]
      | part :: parts => (c :: part) :: parts

structure Parts where
  header : List Char
  claims : List Char
  signature : List Char
  deriving DecidableEq, Repr

def Parts.ofToken (token : String) : Except KeyError Parts :=
  match splitDots token.toList with
  | [header, claims, signature] => .ok ⟨header, claims, signature⟩
  | _ => .error (.decode .partCount)

/-- What is signed: the first two parts and the dot between them. -/
def Parts.signingInput (p : Parts) : Bytes := Utf8.encode (p.header ++ '.' :: p.claims)

def decodePart (part : TokenPart) (text : List Char) : Except KeyError Bytes :=
  match Base64.decode Base64.url (Utf8.encode text) with
  | .error fault => .error (.decode (.partText part fault))
  | .ok bs => .ok bs

def decodeJson {α : Type} (r : Json.Reader α) (part : TokenPart) (text : List Char) : Except KeyError α :=
  match decodePart part text with
  | .error error => .error error
  | .ok bs =>
    match r.run bs with
    | .error fault => .error (.decode (.partJson part fault))
    | .ok x => .ok x

/-- The header of a token. The other parts are not looked at. -/
def decodeHeader (token : String) : Except KeyError Header := do
  let parts ← Parts.ofToken token
  decodeJson Header.read .header parts.header

def encodePart (bs : Bytes) : String := Base64.text Base64.url bs

def signCompact (alg : Alg) (claims : Claims) : Manager.Action String := do
  match claims.write with
  | .error source => Manager.Action.fail (.payload source)
  | .ok claims => do
    let signed ← Manager.sign alg fun kid =>
      let header : Header := ⟨alg.name, kid, some "JWT"⟩
      .ok (Utf8.ofString (encodePart (Utf8.encode header.toJson.text) ++ "." ++ encodePart claims))
    return (Utf8.string? signed.payload).getD "" ++ "." ++ encodePart signed.signature

def verifyCompact (token : String) : Manager.Action Json.Value := do
  let parts ← Manager.Action.ofExcept (Parts.ofToken token)
  let header ← Manager.Action.ofExcept (decodeJson Header.read .header parts.header)
  match Alg.ofName? header.alg with
  | none => Manager.Action.fail (.unsupportedAlgorithm header.alg)
  | some alg => do
    let key ← Manager.keyById header.kid
    if key.alg ≠ alg then do
      Manager.Action.emit (.algorithmMismatch header.kid alg key.alg)
      Manager.Action.fail (.wrongKeyType key.alg)
    else do
      let signature ← Manager.Action.ofExcept (decodePart .signature parts.signature)
      Manager.Action.ofExcept (verify alg key.publicKey parts.signingInput signature)
      Manager.Action.ofExcept (decodeJson Json.Reader.anyValue .claims parts.claims)

end Keyring.Jws
