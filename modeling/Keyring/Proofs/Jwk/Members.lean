import Keyring.Jwk
import Keyring.Proofs.Pkcs8.RoundTrip
import Keyring.Proofs.Record.RoundTrip
import Mathlib.Data.List.Forall2

set_option autoImplicit false

namespace Keyring

namespace Jwk

def bytes? (s : String) : Option Bytes := (Base64.decode Base64.url (Utf8.ofString s)).toOption

def natural? (s : String) : Option Nat :=
  (bytes? s).bind fun bs => if bs.head? = some 0 then none else some (Bytes.toNat bs)

def coordinate? (s : String) : Option Nat :=
  (bytes? s).bind fun bs => if bs.length = 32 then some (Bytes.toNat bs) else none

def rsaKey? (n e : String) : Option PublicKey := do
  return .rsa ⟨← natural? n, ← natural? e⟩

def ecKey? (x y : String) : Option PublicKey := do
  let x ← coordinate? x
  let y ← coordinate? y
  if h : x < P256.curve.modulus ∧ y < P256.curve.modulus then some (.ecdsa ⟨⟨x, y⟩, h.1, h.2⟩) else none

def okpKey? (x : String) : Option PublicKey := do
  let bs ← bytes? x
  if h : bs.length = 32 then some (.ed25519 ⟨bs, h⟩) else none

/-- The public key that the members of an entry write, which must be those of its type and no others. -/
def publicKey? (k : Jwk) : Option PublicKey :=
  match k.keyType, k.curve, k.n, k.e, k.x, k.y with
  | .rsa, none, some n, some e, none, none => rsaKey? n e
  | .ec, some .p256, none, none, some x, some y => ecKey? x y
  | .okp, some .ed25519, none, none, some x, none => okpKey? x
  | _, _, _, _, _, _ => none

theorem bytes?_text (bs : Bytes) : bytes? (Base64.text Base64.url bs) = some bs := by
  rw [bytes?, Base64.ofString_text Base64.url_lawful, (Base64.decode_eq_ok_iff Base64.url_lawful).mpr rfl]
  rfl

theorem natural?_minimal (n : Nat) : natural? (Base64.text Base64.url (Bytes.minimal n)) = some n := by
  rw [natural?, bytes?_text, Option.bind_some, if_neg (Bytes.head_minimal n), Bytes.toNat_minimal]

theorem coordinate?_ofNat {n : Nat} (h : n < P256.curve.modulus) :
    coordinate? (Base64.text Base64.url (Bytes.ofNat 32 n)) = some n := by
  have hlt : n < Nat.pow 256 32 := Nat.lt_trans h (by decide)
  rw [coordinate?, bytes?_text, Option.bind_some, if_pos (Bytes.ofNat_length 32 n), Bytes.toNat_ofNat,
    Nat.mod_eq_of_lt hlt]

def typeOf : Alg → KeyType
  | .rs256 => .rsa
  | .es256 => .ec
  | .edDsa => .okp

def curveOf : Alg → Option CurveName
  | .rs256 => none
  | .es256 => some .p256
  | .edDsa => some .ed25519

def memberNames : KeyType → List String
  | .rsa => ["n", "e"]
  | .ec => ["crv", "x", "y"]
  | .okp => ["crv", "x"]

/-- The entry is that of an id and a key, and says what is said of them. -/
structure Describes (kid : String) (alg : Alg) (key : PublicKey) (j : Jwk) : Prop where
  kid_eq : j.kid = kid
  alg_eq : j.alg = alg
  use_eq : j.use = "sig"
  keyType_eq : j.keyType = typeOf key.alg
  curve_eq : j.curve = curveOf key.alg
  members : ∃ ms, j.toJson = .object ms ∧ ms.map Prod.fst = ["kty", "kid", "alg", "use"] ++ memberNames j.keyType
  publicKey : j.publicKey? = some key

theorem describes_of_ofPublicKey? {kid : String} {alg : Alg} {key : PublicKey} {j : Jwk}
    (h : ofPublicKey? kid alg key = some j) : Describes kid alg key j := by
  unfold ofPublicKey? at h
  split at h
  · cases h
  cases key with
  | rsa key =>
    cases h
    refine ⟨rfl, rfl, rfl, rfl, rfl, ⟨_, rfl, rfl⟩, ?_⟩
    simp [publicKey?, rsaKey?, natural?_minimal]
  | ecdsa key =>
    cases h
    refine ⟨rfl, rfl, rfl, rfl, rfl, ⟨_, rfl, rfl⟩, ?_⟩
    simp [publicKey?, ecKey?, coordinate?_ofNat key.x_lt, coordinate?_ofNat key.y_lt, key.x_lt, key.y_lt]
  | ed25519 key =>
    cases h
    refine ⟨rfl, rfl, rfl, rfl, rfl, ⟨_, rfl, rfl⟩, ?_⟩
    simp [publicKey?, okpKey?, bytes?_text, key.length_bytes]

/-- Keys of one kind that have the same members are the same. -/
theorem Describes.key_eq {kid kid' : String} {alg alg' : Alg} {key key' : PublicKey} {j j' : Jwk}
    (h : Describes kid alg key j) (h' : Describes kid' alg' key' j') (ha : key.alg = key'.alg)
    (hn : j.n = j'.n) (he : j.e = j'.e) (hx : j.x = j'.x) (hy : j.y = j'.y) : key = key' := by
  have hkey := h.publicKey
  rw [publicKey?, h.keyType_eq, h.curve_eq, ha, ← h'.keyType_eq, ← h'.curve_eq, hn, he, hx, hy] at hkey
  exact Option.some.inj (hkey.symm.trans h'.publicKey)

open Json Json.Reader

theorem reads_keyType (t : KeyType) : (choice KeyType.table).Reads (.string t.name) t :=
  reads_choice (by cases t <;> decide)

theorem reads_curve (c : CurveName) : (choice CurveName.table).Reads (.string c.name) c :=
  reads_choice (by cases c <;> decide)

theorem takes_optional {β σ : Type} {s : Shape σ} {draft draft' : σ} {name : String} {o : Option β}
    (m : Member σ) (g : β → String) (f : β → σ → σ)
    (hm : s.members.find? (fun m => m.name = name) = some m) (hseen : m.isSeen draft = false)
    (hread : ∀ x, m.read.Reads (.string (g x)) (f x)) (hdraft : draft' = o.elim draft (f · draft)) :
    s.Takes draft (optionalMember name (o.map g)) draft' := by
  subst hdraft
  cases o with
  | none => exact .nil _
  | some x => exact .cons m (f x) hm hseen (hread x) (.nil _)

theorem reads_optionalText (t : String) : optionalText.Reads (.string t) (some t) := (reads_string t).nullable

def Draft.of (k : Jwk) : Draft := ⟨some k.keyType, some k.kid, some k.alg, some k.use, k.curve.map some,
  k.n.map some, k.e.map some, k.x.map some, k.y.map some⟩

theorem takes_required (k : Jwk) : shape.Takes {}
    [("kty", .string k.keyType.name), ("kid", .string k.kid), ("alg", k.alg.toJson), ("use", .string k.use)]
    { Draft.of k with curve := none, n := none, e := none, x := none, y := none } := by
  refine .cons _ (fun d => { d with keyType := some k.keyType }) rfl rfl ?_
    (.cons _ (fun d => { d with kid := some k.kid }) rfl rfl ?_
    (.cons _ (fun d => { d with alg := some k.alg }) rfl rfl ?_
    (.cons _ (fun d => { d with use := some k.use }) rfl rfl ?_ (.nil _))))
  · exact (reads_keyType _).map _
  · exact (reads_string _).map _
  · exact (Alg.reads_toJson _).map _
  · exact (reads_string _).map _

theorem takes_toJson (k : Jwk) : shape.Takes {}
    ([("kty", .string k.keyType.name), ("kid", .string k.kid), ("alg", k.alg.toJson), ("use", .string k.use)] ++
      optionalMember "crv" (k.curve.map CurveName.name) ++ optionalMember "n" k.n ++
      optionalMember "e" k.e ++ optionalMember "x" k.x ++ optionalMember "y" k.y) (Draft.of k) := by
  have hcurve : shape.Takes { Draft.of k with curve := none, n := none, e := none, x := none, y := none }
      (optionalMember "crv" (k.curve.map CurveName.name))
      { Draft.of k with n := none, e := none, x := none, y := none } :=
    takes_optional _ CurveName.name (fun c d => { d with curve := some (some c) }) rfl rfl
      (fun c => (reads_curve c).nullable.map _) (by cases h : k.curve <;> simp [Draft.of, h])
  have hn : shape.Takes { Draft.of k with n := none, e := none, x := none, y := none }
      (optionalMember "n" (k.n.map id)) { Draft.of k with e := none, x := none, y := none } :=
    takes_optional _ id (fun t d => { d with n := some (some t) }) rfl rfl
      (fun t => (reads_optionalText t).map _) (by cases h : k.n <;> simp [Draft.of, h])
  have he : shape.Takes { Draft.of k with e := none, x := none, y := none }
      (optionalMember "e" (k.e.map id)) { Draft.of k with x := none, y := none } :=
    takes_optional _ id (fun t d => { d with e := some (some t) }) rfl rfl
      (fun t => (reads_optionalText t).map _) (by cases h : k.e <;> simp [Draft.of, h])
  have hx : shape.Takes { Draft.of k with x := none, y := none }
      (optionalMember "x" (k.x.map id)) { Draft.of k with y := none } :=
    takes_optional _ id (fun t d => { d with x := some (some t) }) rfl rfl
      (fun t => (reads_optionalText t).map _) (by cases h : k.x <;> simp [Draft.of, h])
  have hy : shape.Takes { Draft.of k with y := none } (optionalMember "y" (k.y.map id)) (Draft.of k) :=
    takes_optional _ id (fun t d => { d with y := some (some t) }) rfl rfl
      (fun t => (reads_optionalText t).map _) (by cases h : k.y <;> simp [Draft.of, h])
  simp only [Option.map_id_fun, id_eq] at hn he hx hy
  exact (((((takes_required k).append hcurve).append hn).append he).append hx).append hy

theorem reads_toJson (k : Jwk) : Jwk.read.Reads k.toJson k := by
  have hmissing : shape.missing? (Draft.of k) = none := rfl
  have hjoin {α : Type} (o : Option α) : (o.map some).join = o := by cases o <;> rfl
  refine (Shape.reads_object (takes_toJson k) hmissing).bind ?_
  simp only [Draft.of, hjoin]

end Jwk

namespace JwkSet

open Json Json.Reader

theorem reads_toJson (s : JwkSet) : JwkSet.read.Reads s.toJson s := by
  have hkeys : (list Jwk.read).Reads (.array (s.keys.map Jwk.toJson)) s.keys := by
    refine reads_list ?_ ?_
    · rw [List.forall₂_map_left_iff, List.forall₂_same]
      exact fun k _ => k.reads_toJson
    · intro v hv
      obtain ⟨k, -, rfl⟩ := List.mem_map.mp hv
      exact isItem_object _
  have htakes : shape.Takes {} [("keys", .array (s.keys.map Jwk.toJson))] ⟨some s.keys⟩ :=
    .cons _ (fun d => { d with keys := some s.keys }) rfl rfl (hkeys.map _) (.nil _)
  exact (Shape.reads_object htakes rfl).bind rfl

theorem ofJson_text (s : JwkSet) : ofJson s.text = .ok s := (reads_toJson s).run

end JwkSet
end Keyring
