import Keyring.Proofs.Json.Echo
import Keyring.Proofs.Record.RoundTrip
import Keyring.Proofs.Time.Reading

set_option autoImplicit false

namespace Keyring

open Json Json.Reader

theorem Json.echoes_bytes : Reader.bytes.Echoes fun v bs => v = ofBytes bs := by
  have hread : Reader.bytes.Echoes fun v bs => ∃ s, v = .string s ∧
      Base64.decode Base64.url (Utf8.ofString s) = .ok bs := by
    refine echoes_string.check fun s bs t rest h => ?_
    cases hdecode : Base64.decode Base64.url (Utf8.ofString s) with
    | error fault =>
      rw [hdecode] at h
      cases h
    | ok bs =>
      rw [hdecode] at h
      cases h
      exact ⟨rfl, rfl⟩
  refine hread.mono ?_
  rintro _ bs ⟨s, rfl, hdecode⟩
  rw [ofBytes, String.toList_inj.mp ((Base64.decode_text_eq_ok_iff Base64.url_lawful).mp hdecode)]

theorem Json.echoes_time : Reader.time.Echoes fun _ t => t.IsCivil := by
  have hread : Reader.time.Echoes fun v t => ∃ s, v = .string s ∧ Time.ofText? s.toList = some t := by
    refine (echoes_stringFor _).check fun s t bs rest h => ?_
    cases htime : Time.ofText? s.toList with
    | none =>
      rw [htime] at h
      cases h
    | some t =>
      rw [htime] at h
      cases h
      exact ⟨rfl, rfl⟩
  exact hread.mono fun _ _ ⟨_, _, htime⟩ => Time.isCivil_of_ofText? htime

namespace EncryptedKey

inductive Told (name : String) (v : Value) : (Draft → Draft) → Prop where
  | nonce (bs : Bytes) (hn : name = "nonce") (hv : v = ofBytes bs) : Told name v fun d => { d with nonce := some bs }
  | ciphertext (bs : Bytes) (hn : name = "ciphertext") (hv : v = ofBytes bs) :
      Told name v fun d => { d with ciphertext := some bs }

theorem shape_obeys : shape.Obeys Told where
  strict := rfl
  complete := by decide
  read := by
    intro m hm
    simp only [shape, List.mem_cons, List.not_mem_nil, or_false] at hm
    rcases hm with rfl | rfl
    · exact (echoes_bytes.map _).mono fun v f ⟨bs, hv, hf⟩ => hf ▸ .nonce bs rfl hv
    · exact (echoes_bytes.map _).mono fun v f ⟨bs, hv, hf⟩ => hf ▸ .ciphertext bs rfl hv
  seen := by
    intro m hm v f draft hlaw
    simp only [shape, List.mem_cons, List.not_mem_nil, or_false] at hm
    rcases hm with rfl | rfl <;> cases hlaw <;> simp_all
  kept := by
    intro m hm name v f draft hlaw hseen
    simp only [shape, List.mem_cons, List.not_mem_nil, or_false] at hm
    rcases hm with rfl | rfl <;> cases hlaw <;> simp_all

/-- The value is an object with these members, each of them once, or their values in their order. Both byte
strings are written in base64url without padding. -/
inductive SpelledBy (k : EncryptedKey) : Value → Prop where
  | object {ms : List (String × Value)} (nodup : (ms.map Prod.fst).Nodup)
      (known : ∀ name ∈ ms.map Prod.fst, name ∈ shape.members.map Member.name)
      (nonce : ("nonce", .string (Base64.text Base64.url k.nonce)) ∈ ms)
      (ciphertext : ("ciphertext", .string (Base64.text Base64.url k.ciphertext)) ∈ ms) : SpelledBy k (.object ms)
  | array : SpelledBy k
      (.array [.string (Base64.text Base64.url k.nonce), .string (Base64.text Base64.url k.ciphertext)])

theorem spelledBy_gathers {ms : List (String × Value)} {k : EncryptedKey}
    (h : shape.Gathers Told {} ms ⟨some k.nonce, some k.ciphertext⟩) : k.SpelledBy (.object ms) := by
  obtain ⟨hnodup, hknown⟩ := h.names shape_obeys
  obtain ⟨_, hnonce, rfl⟩ : ∃ v, ("nonce", v) ∈ ms ∧ v = ofBytes k.nonce := by
    refine (h.origin Draft.nonce "nonce" (fun v bs => v = ofBytes bs) ?_ rfl).resolve_left nofun
    rintro name v _ draft x (⟨bs, hname, hv⟩ | ⟨bs, hname, hv⟩) hx
    · exact .inr ⟨hname, Option.some.inj hx ▸ hv⟩
    · exact .inl hx
  obtain ⟨_, hciphertext, rfl⟩ : ∃ v, ("ciphertext", v) ∈ ms ∧ v = ofBytes k.ciphertext := by
    refine (h.origin Draft.ciphertext "ciphertext" (fun v bs => v = ofBytes bs) ?_ rfl).resolve_left nofun
    rintro name v _ draft x (⟨bs, hname, hv⟩ | ⟨bs, hname, hv⟩) hx
    · exact .inl hx
    · exact .inr ⟨hname, Option.some.inj hx ▸ hv⟩
  exact .object hnodup hknown hnonce hciphertext

theorem spelledBy_lines {vs : List Value} {k : EncryptedKey}
    (h : Shape.Lines Told shape.members {} vs ⟨some k.nonce, some k.ciphertext⟩) : k.SpelledBy (.array vs) := by
  obtain ⟨v, vs, f, rfl, hnonce, h⟩ := Shape.lines_cons h
  obtain ⟨v', vs, f', rfl, hciphertext, h⟩ := Shape.lines_cons h
  obtain ⟨rfl, h⟩ := Shape.lines_nil h
  cases hnonce with
  | ciphertext _ hname => exact absurd hname (by decide)
  | nonce bs _ hv =>
    cases hciphertext with
    | nonce _ hname => exact absurd hname (by decide)
    | ciphertext bs' _ hv' =>
      cases h
      rw [hv, hv']
      exact .array

theorem echoes_read : EncryptedKey.read.Echoes fun v k => k.SpelledBy v := by
  intro bs k rest hread
  rw [EncryptedKey.read] at hread
  obtain ⟨d, t, hdraft, hwhole⟩ := Reader.bind_eq_ok.mp hread
  obtain ⟨v, hv, hd⟩ := Shape.echoes_read shape_obeys {} _ _ _ hdraft
  obtain ⟨nonce, ciphertext⟩ := d
  simp only at hwhole
  split at hwhole
  · cases hwhole
    rcases hd with ⟨ms, rfl, hd⟩ | ⟨vs, rfl, hd⟩
    · exact ⟨_, hv, spelledBy_gathers hd⟩
    · exact ⟨_, hv, spelledBy_lines hd⟩
  · cases hwhole

end EncryptedKey

namespace Record

inductive Told (name : String) (v : Value) : (Draft → Draft) → Prop where
  | kid (x : String) (hn : name = "kid") : Told name v fun d => { d with kid := some x }
  | alg (x : Alg) (hn : name = "alg") : Told name v fun d => { d with alg := some x }
  | isActive (x : Bool) (hn : name = "is_active") : Told name v fun d => { d with isActive := some x }
  | createdAt (x : Time) (hn : name = "created_at") (hx : x.IsCivil) :
      Told name v fun d => { d with createdAt := some x }
  | expiresAt (x : Option Time) (hn : name = "expires_at") (hx : ∀ t, x = some t → t.IsCivil) :
      Told name v fun d => { d with expiresAt := some x }
  | encryptedKey (x : EncryptedKey) (hn : name = "encrypted_key") (hx : x.SpelledBy v) :
      Told name v fun d => { d with encryptedKey := some x }

theorem shape_obeys : shape.Obeys Told where
  strict := rfl
  complete := by decide
  read := by
    intro m hm
    simp only [shape, List.mem_cons, List.not_mem_nil, or_false] at hm
    rcases hm with rfl | rfl | rfl | rfl | rfl | rfl
    · exact (echoes_string.map _).mono fun v f ⟨x, _, hf⟩ => hf ▸ .kid x rfl
    · exact ((echoes_choice _).map _).mono fun v f ⟨x, _, hf⟩ => hf ▸ .alg x rfl
    · exact (echoes_boolean.map _).mono fun v f ⟨x, _, hf⟩ => hf ▸ .isActive x rfl
    · exact (echoes_time.map _).mono fun v f ⟨x, hx, hf⟩ => hf ▸ .createdAt x rfl hx
    · refine (echoes_time.nullable.map _).mono fun v f ⟨x, hx, hf⟩ => hf ▸ .expiresAt x rfl ?_
      rintro t rfl
      rcases hx with ⟨-, hx⟩ | ⟨u, hu, hx⟩
      · cases hx
      · exact Option.some.inj hx ▸ hu
    · exact (EncryptedKey.echoes_read.map _).mono fun v f ⟨x, hx, hf⟩ => hf ▸ .encryptedKey x rfl hx
  seen := by
    intro m hm v f draft hlaw
    simp only [shape, List.mem_cons, List.not_mem_nil, or_false] at hm
    rcases hm with rfl | rfl | rfl | rfl | rfl | rfl <;> cases hlaw <;> simp_all
  kept := by
    intro m hm name v f draft hlaw hseen
    simp only [shape, List.mem_cons, List.not_mem_nil, or_false] at hm
    rcases hm with rfl | rfl | rfl | rfl | rfl | rfl <;> cases hlaw <;> simp_all

/-- The object has members of a record only, each of them once, and the encrypted key among them. -/
structure SpelledBy (r : Record) (ms : List (String × Value)) : Prop where
  nodup : (ms.map Prod.fst).Nodup
  known : ∀ name ∈ ms.map Prod.fst, name ∈ shape.members.map Member.name
  encryptedKey : ∃ v, ("encrypted_key", v) ∈ ms ∧ r.encryptedKey.SpelledBy v

structure Draft.IsDated (d : Draft) : Prop where
  created : ∀ t, d.createdAt = some t → t.IsCivil
  expires : ∀ t, d.expiresAt = some (some t) → t.IsCivil

theorem Told.isDated {name : String} {v : Value} {f : Draft → Draft} {d : Draft} (h : Told name v f) (hd : d.IsDated) :
    (f d).IsDated := by
  cases h with
  | kid x hn => exact ⟨hd.created, hd.expires⟩
  | alg x hn => exact ⟨hd.created, hd.expires⟩
  | isActive x hn => exact ⟨hd.created, hd.expires⟩
  | createdAt x hn hx => exact ⟨fun t ht => Option.some.inj ht ▸ hx, hd.expires⟩
  | expiresAt x hn hx => exact ⟨hd.created, fun t ht => hx t (Option.some.inj ht)⟩
  | encryptedKey x hn hx => exact ⟨hd.created, hd.expires⟩

theorem isDated_empty : Draft.IsDated {} := ⟨nofun, nofun⟩

theorem spelledBy_gathers {ms : List (String × Value)} {d : Draft} {r : Record} (h : shape.Gathers Told {} ms d)
    (hkey : d.encryptedKey = some r.encryptedKey) : r.SpelledBy ms := by
  obtain ⟨hnodup, hknown⟩ := h.names shape_obeys
  refine ⟨hnodup, hknown, ?_⟩
  refine (h.origin Draft.encryptedKey "encrypted_key" (fun v k => k.SpelledBy v) ?_ hkey).resolve_left nofun
  intro name v f draft x hlaw hx
  cases hlaw with
  | encryptedKey k hn hk => exact .inr ⟨hn, Option.some.inj hx ▸ hk⟩
  | _ => exact .inl hx

theorem echoes_read : Record.read.Echoes fun v r =>
    r.IsDated ∧ ((∃ ms, v = .object ms ∧ r.SpelledBy ms) ∨ ∃ vs, v = .array vs) := by
  intro bs r rest hread
  rw [Record.read] at hread
  obtain ⟨d, t, hdraft, hwhole⟩ := Reader.bind_eq_ok.mp hread
  obtain ⟨v, hv, hd⟩ := Shape.echoes_read shape_obeys {} _ _ _ hdraft
  have hdated : d.IsDated := by
    rcases hd with ⟨ms, -, hd⟩ | ⟨vs, -, hd⟩
    · exact hd.keeps (fun _ _ _ _ => Told.isDated) isDated_empty
    · exact hd.keeps (fun _ _ _ _ => Told.isDated) isDated_empty
  obtain ⟨kid, alg, isActive, createdAt, expiresAt, encryptedKey⟩ := d
  simp only at hwhole
  split at hwhole
  · cases hwhole
    refine ⟨_, hv, ⟨hdated.created _ rfl, fun t ht => hdated.expires t (Option.join_eq_some_iff.mp ht)⟩, ?_⟩
    rcases hd with ⟨ms, rfl, hd⟩ | ⟨vs, rfl, -⟩
    · exact .inl ⟨ms, rfl, spelledBy_gathers hd rfl⟩
    · exact .inr ⟨vs, rfl⟩
  · cases hwhole

/-- A record that is written reads back. An object that is read as a record has members of a record only, none
of them twice, and the key in it in the one way its bytes are written; what was read is written and read back. -/
theorem text_is_faithful : (∀ r : Record, r.IsDated → ofJson r.toJson.toString = .ok r) ∧
    ∀ (text : String) (r : Record), ofJson text = .ok r →
      (∃ v, Value.ofTextVerbatim text = .ok v ∧ ((∃ ms, v = .object ms ∧ r.SpelledBy ms) ∨ ∃ vs, v = .array vs)) ∧
      ofJson r.toJson.toString = .ok r := by
  refine ⟨fun r => ofJson_toString, fun text r hread => ?_⟩
  obtain ⟨v, hv, hdated, hspelled⟩ := echoes_read.run hread
  exact ⟨⟨v, hv, hspelled⟩, ofJson_toString hdated⟩

def sample : Record := ⟨"k\n1", .edDsa, true, ⟨1700000000, 250000000⟩, none, ⟨[0xFF], [0, 1, 2]⟩⟩

/-- The sample with its members in another order, one of them missing, and its key as an array. -/
def sampleText : String := "\x7b\"encrypted_key\": [\"_w\", \"AAEC\"], \"is_active\": true, \"alg\": \"EdDSA\", " ++
  "\"created_at\": \"2023-11-14T23:13:20.25+01:00\", \"kid\": \"k\\u000a1\"\x7d"

theorem sample_text_is_faithful : sample.IsDated ∧ ofJson sample.toJson.toString = .ok sample ∧
    ofJson sampleText = .ok sample ∧
    ∃ ms, Value.ofTextVerbatim sampleText = .ok (.object ms) ∧ sample.SpelledBy ms := by
  have hdated : sample.IsDated := ⟨⟨by decide, .inl (by decide)⟩, nofun⟩
  have hread : ofJson sampleText = .ok sample := by decide +kernel
  have hobject : (Value.ofTextVerbatim sampleText matches .ok (.array _)) = false := by decide +kernel
  obtain ⟨hwritten, hspelled⟩ := text_is_faithful
  refine ⟨hdated, hwritten sample hdated, hread, ?_⟩
  obtain ⟨⟨v, hv, ⟨ms, rfl, hms⟩ | ⟨vs, rfl⟩⟩, -⟩ := hspelled sampleText sample hread
  · exact ⟨ms, hv, hms⟩
  · rw [hv] at hobject
    cases hobject

end Record
end Keyring
