import Keyring.Proofs.Json.Digest
import Keyring.Proofs.Jws.Header
import Keyring.Proofs.Jws.Token

/-!
The headers of tokens. Main statement: a header is decoded from just those tokens of three parts of which the first is
the base64 of a text that the header is written in; what the other two parts are does not matter.
-/
set_option autoImplicit false

namespace Keyring.Jws.Header

open Json

/-- The text is an object with the members of the header, each of them once; the type may be null or missing. Members
of other names do not matter. -/
def IsObjectText (h : Header) (bs : Bytes) : Prop := ∃ ms, IsObject bs ms ∧ (∀ m ∈ ms, m.1 ≠ none) ∧
  (∃ v, valuesOf "alg" ms = [v] ∧ IsString v h.alg) ∧ (∃ v, valuesOf "kid" ms = [v] ∧ IsString v h.kid) ∧
  ((valuesOf "typ" ms = [] ∧ h.typ = none) ∨ ∃ v, valuesOf "typ" ms = [v] ∧ IsNullable v h.typ)

/-- The text is an array with the header's strings in their order; the type may be null or missing. -/
def IsArrayText (h : Header) (bs : Bytes) : Prop := ∃ alg kid, IsString alg h.alg ∧ IsString kid h.kid ∧
  ((IsArray bs [alg, kid] ∧ h.typ = none) ∨ ∃ typ, IsArray bs [alg, kid, typ] ∧ IsNullable typ h.typ)

def IsWrittenIn (h : Header) (bs : Bytes) : Prop := h.IsObjectText bs ∨ h.IsArrayText bs

theorem missing?_eq_none_iff {d : Draft} : shape.missing? d = none ↔ d.alg ≠ none ∧ d.kid ≠ none := by
  obtain ⟨alg, kid, typ⟩ := d
  cases alg <;> cases kid <;> simp [Shape.missing?, shape, List.find?]

theorem digest_nil {draft d : Draft} : shape.digest draft [] = .ok d ↔ d = draft ∧ d.alg ≠ none ∧ d.kid ≠ none := by
  rw [← missing?_eq_none_iff, Shape.digest]
  constructor
  · intro h
    split at h <;> cases h
    exact ⟨rfl, by assumption⟩
  · rintro ⟨rfl, h⟩
    rw [h]

theorem digest_eq_ok_iff {ms : List RawMember} (hms : ∀ m ∈ ms, IsJson .value m.2) {draft d : Draft} :
    shape.digest draft ms = .ok d ↔ (∀ m ∈ ms, m.1 ≠ none) ∧ Fills IsString draft.alg (valuesOf "alg" ms) d.alg ∧
      Fills IsString draft.kid (valuesOf "kid" ms) d.kid ∧ Fills IsNullable draft.typ (valuesOf "typ" ms) d.typ ∧
      d.alg ≠ none ∧ d.kid ≠ none := by
  induction ms generalizing draft with
  | nil =>
    obtain ⟨alg, kid, typ⟩ := d
    obtain ⟨alg', kid', typ'⟩ := draft
    simp only [digest_nil, valuesOf_nil, fills_nil, Draft.mk.injEq, List.not_mem_nil, false_imp_iff, implies_true,
      true_and, and_assoc]
  | cons m ms ih =>
    obtain ⟨name, v⟩ := m
    have hv : IsJson .value v := hms _ List.mem_cons_self
    have ih (draft : Draft) : shape.digest draft ms = .ok d ↔ _ := ih fun m hm => hms m (List.mem_cons_of_mem _ hm)
    cases name with
    | none => simp [Shape.digest]
    | some name =>
      by_cases halg : name = "alg"
      · subst halg
        rw [Shape.digest_known Draft.alg (fun x d => { d with alg := some x }) (string_run_iff hv) rfl rfl rfl]
        simp only [ih, valuesOf_cons, if_true, fills_cons, String.reduceEq, if_false, List.forall_mem_cons, ne_eq,
          reduceCtorEq, not_false_eq_true, true_and]
        grind
      by_cases hkid : name = "kid"
      · subst hkid
        rw [Shape.digest_known Draft.kid (fun x d => { d with kid := some x }) (string_run_iff hv) rfl rfl rfl]
        simp only [ih, valuesOf_cons, if_true, fills_cons, String.reduceEq, if_false, List.forall_mem_cons, ne_eq,
          reduceCtorEq, not_false_eq_true, true_and]
        grind
      by_cases htyp : name = "typ"
      · subst htyp
        rw [Shape.digest_known Draft.typ (fun x d => { d with typ := some x }) (nullable_run_iff hv) rfl rfl rfl]
        simp only [ih, valuesOf_cons, if_true, fills_cons, String.reduceEq, if_false, List.forall_mem_cons, ne_eq,
          reduceCtorEq, not_false_eq_true, true_and]
        grind
      · have hfind : shape.members.find? (fun m => m.name = name) = none := by
          simp [shape, Ne.symm halg, Ne.symm hkid, Ne.symm htyp]
        rw [Shape.digest_cons_unknown hfind rfl, ih]
        simp [halg, hkid, htyp]

theorem isLocal_members : ∀ m ∈ shape.members, m.read.IsLocal := by
  simp only [shape, List.forall_mem_cons, List.not_mem_nil, false_imp_iff, implies_true, and_true]
  exact ⟨Reader.isLocal_string.map _, Reader.isLocal_string.map _, Reader.isLocal_string.nullable.map _⟩

theorem isSound_members : ∀ m ∈ shape.members, m.read.IsSound := by
  simp only [shape, List.forall_mem_cons, List.not_mem_nil, false_imp_iff, implies_true, and_true]
  exact ⟨Reader.isSound_string.map _, Reader.isSound_string.map _, Reader.isSound_string.nullable.map _⟩

def Draft.Gives (d : Draft) (h : Header) : Prop := d.alg = some h.alg ∧ d.kid = some h.kid ∧ d.typ.join = h.typ

def Draft.header (d : Draft) : Except Json.Fault Header :=
  match d.alg, d.kid with
  | some alg, some kid => .ok ⟨alg, kid, d.typ.join⟩
  | _, _ => .error .malformed

theorem Draft.header_eq_ok_iff {d : Draft} {h : Header} : d.header = .ok h ↔ d.Gives h := by
  obtain ⟨alg, kid, typ⟩ := d
  obtain ⟨alg', kid', typ'⟩ := h
  cases alg <;> cases kid <;> simp [Draft.header, Draft.Gives]

theorem read_run_eq_ok_iff_gives {bs : Bytes} {h : Header} :
    read.run bs = .ok h ↔ ∃ d : Draft, (shape.read {}).run bs = .ok d ∧ d.Gives h := by
  refine (run_check_iff (f := Draft.header) fun d bs => ?_).trans (exists_congr fun d => ?_)
  · obtain ⟨alg, kid, typ⟩ := d
    cases alg <;> cases kid <;> rfl
  · rw [Draft.header_eq_ok_iff]

theorem lineup_eq_ok_iff {vs : List Bytes} (hvs : ∀ v ∈ vs, IsJson .value v) {d : Draft} :
    shape.lineup 0 shape.members {} vs = .ok d ↔ ∃ v w alg kid, IsString v alg ∧ IsString w kid ∧ d.alg = some alg ∧
      d.kid = some kid ∧
      ((vs = [v, w] ∧ d.typ = none) ∨ ∃ x typ, vs = [v, w, x] ∧ IsNullable x typ ∧ d.typ = some typ) := by
  have hstring {v : Bytes} (hv : IsJson .value v) (fill : String → Draft → Draft) {f : Draft → Draft} :
      (fill <$> Reader.string).run v = .ok f ↔ ∃ s, IsString v s ∧ f = fill s := by
    simp only [run_map, map_eq_ok_iff, string_run_iff hv, eq_comm]
  have hnullable {v : Bytes} (hv : IsJson .value v) (fill : Option String → Draft → Draft) {f : Draft → Draft} :
      (fill <$> Reader.nullable Reader.string).run v = .ok f ↔ ∃ o, IsNullable v o ∧ f = fill o := by
    simp only [run_map, map_eq_ok_iff, nullable_run_iff hv, eq_comm]
  obtain ⟨alg, kid, typ⟩ := d
  match vs with
  | [] => simp [Shape.lineup_nil, shape]
  | [v] => simp [Shape.lineup_nil, Shape.lineup_cons, shape]
  | [v, w] =>
    simp only [List.forall_mem_cons] at hvs
    simp [Shape.lineup_nil, Shape.lineup_cons, Shape.lineup_done, shape, hstring hvs.1, hstring hvs.2.1]
  | [v, w, x] =>
    simp only [List.forall_mem_cons] at hvs
    simp [Shape.lineup_cons, Shape.lineup_done, shape, hstring hvs.1, hstring hvs.2.1, hnullable hvs.2.2.1]
    exact ⟨fun ⟨alg, halg, kid, hkid, typ, htyp, h, h', h''⟩ => ⟨alg, halg, kid, hkid, h, h', typ, htyp, h''⟩,
      fun ⟨alg, halg, kid, hkid, h, h', typ, htyp, h''⟩ => ⟨alg, halg, kid, hkid, typ, htyp, h, h', h''⟩⟩
  | v :: w :: x :: y :: more => simp [Shape.lineup_cons, Shape.lineup_done, shape]

theorem read_run_eq_ok_iff {bs : Bytes} {h : Header} : read.run bs = .ok h ↔ h.IsWrittenIn bs := by
  rw [read_run_eq_ok_iff_gives]
  constructor
  · rintro ⟨d, hd, halg, hkid, htyp⟩
    rcases Shape.isObject_or_isArray isSound_members hd with ⟨ms, hms⟩ | ⟨vs, hvs⟩
    · rw [Shape.read_isObject isLocal_members hms, digest_eq_ok_iff hms.value_isJson, halg, hkid, fills_none_iff,
        fills_none_iff] at hd
      obtain ⟨hnames, hfill, hfill', hfill'', -⟩ := hd
      refine .inl ⟨ms, hms, hnames, hfill, hfill', ?_⟩
      rcases hfill'' with ⟨hnone, heq⟩ | ⟨v, o, -, hv, ho, heq⟩
      · exact .inl ⟨hnone, by rw [← htyp, heq]; rfl⟩
      · exact .inr ⟨v, hv, by rw [← htyp, heq]; exact ho⟩
    · rw [Shape.read_isArray isLocal_members hvs, lineup_eq_ok_iff hvs.value_isJson] at hd
      obtain ⟨v, w, alg, kid, hv, hw, heq, heq', hlast⟩ := hd
      cases halg.symm.trans heq
      cases hkid.symm.trans heq'
      refine .inr ⟨v, w, hv, hw, ?_⟩
      rcases hlast with ⟨rfl, hnone⟩ | ⟨x, typ, rfl, hx, hsome⟩
      · exact .inl ⟨hvs, by rw [← htyp, hnone]; rfl⟩
      · exact .inr ⟨x, hvs, by rw [← htyp, hsome]; exact hx⟩
  · rintro (⟨ms, hms, hnames, hfill, hfill', hlast⟩ | ⟨v, w, hv, hw, hlast⟩)
    · obtain ⟨typ, htyp, hfill''⟩ : ∃ typ, typ.join = h.typ ∧ Fills IsNullable none (valuesOf "typ" ms) typ := by
        rcases hlast with ⟨hnone, heq⟩ | ⟨v, hv, hnull⟩
        · exact ⟨none, heq.symm, .inl ⟨hnone, rfl⟩⟩
        · exact ⟨some h.typ, rfl, .inr ⟨v, h.typ, rfl, hv, hnull, rfl⟩⟩
      refine ⟨⟨some h.alg, some h.kid, typ⟩, ?_, rfl, rfl, htyp⟩
      rw [Shape.read_isObject isLocal_members hms, digest_eq_ok_iff hms.value_isJson]
      exact ⟨hnames, fills_none_iff.mpr hfill, fills_none_iff.mpr hfill', hfill'', nofun, nofun⟩
    · obtain ⟨vs, hvs, typ, htyp, hshape⟩ : ∃ vs, IsArray bs vs ∧ ∃ typ : Option (Option String), typ.join = h.typ ∧
          ((vs = [v, w] ∧ typ = none) ∨ ∃ x o, vs = [v, w, x] ∧ IsNullable x o ∧ typ = some o) := by
        rcases hlast with ⟨hvs, hnone⟩ | ⟨x, hvs, hx⟩
        · exact ⟨_, hvs, none, hnone.symm, .inl ⟨rfl, rfl⟩⟩
        · exact ⟨_, hvs, some h.typ, rfl, .inr ⟨x, h.typ, rfl, hx, rfl⟩⟩
      refine ⟨⟨some h.alg, some h.kid, typ⟩, ?_, rfl, rfl, htyp⟩
      rw [Shape.read_isArray isLocal_members hvs, lineup_eq_ok_iff hvs.value_isJson]
      exact ⟨v, w, h.alg, h.kid, hv, hw, rfl, rfl, hshape⟩

end Keyring.Jws.Header

namespace Keyring.Jws

theorem decodeHeader_eq_ok_iff {token : String} {h : Header} :
    decodeHeader token = .ok h ↔ ∃ (p : Parts) (bs : Bytes), p.Of token ∧ Encodes p.header bs ∧ h.IsWrittenIn bs := by
  rw [decodeHeader, bind_eq_ok]
  constructor
  · rintro ⟨p, hp, hh⟩
    obtain ⟨bs, hbs, hread⟩ := decodeJson_eq_ok_iff.mp hh
    exact ⟨p, bs, Parts.ofToken_eq_ok_iff.mp hp, hbs, Header.read_run_eq_ok_iff.mp hread⟩
  · rintro ⟨p, bs, hp, hbs, hwritten⟩
    have hread := Header.read_run_eq_ok_iff.mpr hwritten
    exact ⟨p, Parts.ofToken_eq_ok_iff.mpr hp, decodeJson_eq_ok_iff.mpr ⟨bs, hbs, hread⟩⟩

theorem decodeHeader_eq_error {token : String} {error : KeyError} (h : decodeHeader token = .error error) :
    ∃ cause, error = .decode cause := by
  unfold decodeHeader at h
  cases hp : Parts.ofToken token with
  | error error' =>
    rw [hp] at h
    cases h
    exact ⟨_, (Parts.ofToken_eq_error hp).1⟩
  | ok p =>
    rw [hp] at h
    rcases decodeJson_eq_error_iff.mp h with ⟨fault, -, rfl⟩ | ⟨bs, fault, -, -, rfl⟩
    · exact ⟨_, rfl⟩
    · exact ⟨_, rfl⟩

/-- A header is decoded from just the tokens of three parts of which the first is the base64 of a text that the header
is written in; every other token is refused as undecodable, and the text of a header reads back. -/
theorem header_is_decoded_iff_written (token : String) :
    (∀ h, decodeHeader token = .ok h ↔
        ∃ (p : Parts) (bs : Bytes), p.Of token ∧ Encodes p.header bs ∧ h.IsWrittenIn bs) ∧
      (∀ error, decodeHeader token = .error error → ∃ cause, error = .decode cause) ∧
      ∀ h : Header, Header.read.run (Utf8.encode h.toJson.text) = .ok h :=
  ⟨fun _ => decodeHeader_eq_ok_iff, fun _ => decodeHeader_eq_error, Header.read_text⟩

/-- All three parts are base64, and the first one that of an object with the members of the header. -/
def IsCompact (token : String) (h : Header) : Prop := ∃ p : Parts, p.Of token ∧
  (∃ bs, Encodes p.header bs ∧ h.IsObjectText bs) ∧ (∃ bs, Encodes p.claims bs) ∧ ∃ bs, Encodes p.signature bs

theorem header_is_decoded_beside_other_parts : ¬ ∀ token h, decodeHeader token = .ok h ↔ IsCompact token h := by
  intro h
  have hdecoded : decodeHeader "eyJhbGciOiJFZERTQSIsImtpZCI6ImsifQ.!.!" = .ok ⟨"EdDSA", "k", none⟩ :=
    eq_ok_of_toOption (by decide +kernel)
  obtain ⟨p, hp, -, ⟨bs, hbs⟩, -⟩ := (h _ _).mp hdecoded
  have hclaims : p.claims = ['!'] := by
    have hparts := Parts.ofToken_eq_ok_iff.mpr hp
    have hcut : Parts.ofToken "eyJhbGciOiJFZERTQSIsImtpZCI6ImsifQ.!.!" =
        .ok ⟨"eyJhbGciOiJFZERTQSIsImtpZCI6ImsifQ".toList, ['!'], ['!']⟩ := eq_ok_of_toOption (by decide +kernel)
    rw [hcut] at hparts
    cases hparts
    rfl
  rw [hclaims] at hbs
  have hread : decodePart .claims ['!'] = .ok bs := decodePart_eq_ok_iff.mpr hbs
  cases hread

end Keyring.Jws
