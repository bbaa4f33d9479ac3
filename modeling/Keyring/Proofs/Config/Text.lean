import Keyring.Config
import Keyring.Proofs.Duration.Text
import Keyring.Proofs.Json.Digest
import Keyring.Proofs.Record.RoundTrip

set_option autoImplicit false

namespace Keyring

namespace Json

theorem reads_ofDuration (d : Duration) : Reader.duration.Reads (ofDuration d) d := by
  refine (Reader.reads_stringFor _ _).bind ?_
  rw [String.toList_ofList, Duration.ofText?_text]

theorem isLocal_duration : Reader.duration.IsLocal := by
  refine Reader.isLocal_check (f := fun s =>
    (Duration.ofText? s.toList).elim (.error (.invalidValue (.string s) "a duration")) .ok)
    (Reader.isLocal_stringFor _) fun s bs => ?_
  cases Duration.ofText? s.toList <;> rfl

theorem Reader.Reads.run_encode {α : Type} {r : Reader α} {v : Value} {x : α} (h : r.Reads v x) :
    r.run (Utf8.encode v.text) = .ok x := by
  have hrun := h.run
  rwa [Utf8.ofString, Value.toString, String.toList_ofList] at hrun

theorem isItem_string (s : String) : Reader.IsItem (.string s) := by
  refine ⟨0x22, Utf8.encode (s.toList.flatMap escapeChar) ++ [0x22], ?_, rfl, by decide⟩
  rw [Value.text, encode_stringText]

namespace Shape

variable {σ : Type} {s : Shape σ} {m : Member σ} {f : σ → σ}

/-- What the member's value does to a draft has nothing to do with the other members. -/
structure StandsApart (s : Shape σ) (m : Member σ) (f : σ → σ) : Prop where
  found : s.members.find? (fun m' => m'.name = m.name) = some m
  missing : ∀ d, s.missing? (f d) = s.missing? d
  apart : ∀ m' ∈ s.members, m'.name ≠ m.name → ∃ (β : Type) (r : Reader β) (fill : β → σ → σ), m'.read = fill <$> r ∧
    ∀ d, m'.isSeen (f d) = m'.isSeen d ∧ ∀ y, fill y (f d) = f (fill y d) ∧ m.isSeen (fill y d) = m.isSeen d

theorem StandsApart.seen (h : s.StandsApart m f) {m' : Member σ} (hm : m' ∈ s.members) (hne : m'.name ≠ m.name)
    (d : σ) :
    m'.isSeen (f d) = m'.isSeen d := by
  obtain ⟨β, r, fill, -, hfill⟩ := h.apart m' hm hne
  exact (hfill d).1

theorem StandsApart.commutes (h : s.StandsApart m f) {m' : Member σ} (hm : m' ∈ s.members) (hne : m'.name ≠ m.name)
    {v : Bytes} {g : σ → σ} (hg : m'.read.run v = .ok g) (d : σ) :
    g (f d) = f (g d) ∧ m.isSeen (g d) = m.isSeen d := by
  obtain ⟨β, r, fill, hread, hfill⟩ := h.apart m' hm hne
  rw [hread, run_map] at hg
  obtain ⟨y, -, rfl⟩ := map_eq_ok_iff.mp hg
  exact (hfill d).2 y

theorem name_of_find? {name : String} {m : Member σ} (h : s.members.find? (fun m => m.name = name) = some m) :
    m.name = name := by simpa using List.find?_some h

theorem StandsApart.digest (h : s.StandsApart m f) {ms : List RawMember} (hms : valuesOf m.name ms = []) (d : σ) :
    s.digest (f d) ms = (s.digest d ms).map f ∧ ∀ d', s.digest d ms = .ok d' → m.isSeen d' = m.isSeen d := by
  induction ms generalizing d with
  | nil =>
    rw [Shape.digest, Shape.digest, h.missing]
    cases s.missing? d with
    | some name => exact ⟨rfl, fun _ hd => by cases hd⟩
    | none => exact ⟨rfl, fun d' hd => by cases hd; rfl⟩
  | cons raw ms ih =>
    obtain ⟨name, v⟩ := raw
    cases name with
    | none => exact ⟨rfl, fun _ hd => by cases hd⟩
    | some name =>
      rw [valuesOf_cons] at hms
      by_cases hname : name = m.name
      · rw [if_pos hname] at hms
        cases hms
      rw [if_neg hname] at hms
      rw [Shape.digest, Shape.digest]
      cases hfind : s.members.find? fun m => m.name = name with
      | none =>
        simp only
        split
        · exact ⟨rfl, fun _ hd => by cases hd⟩
        · exact ih hms d
      | some m' =>
        have hmem := List.mem_of_find?_eq_some hfind
        have hne : m'.name ≠ m.name := name_of_find? hfind ▸ hname
        simp only [h.seen hmem hne]
        split
        · exact ⟨rfl, fun _ hd => by cases hd⟩
        cases hrun : m'.read.run v with
        | error fault => exact ⟨rfl, fun _ hd => by cases hd⟩
        | ok g =>
          obtain ⟨hcommutes, hseen⟩ := h.commutes hmem hne hrun d
          obtain ⟨hdigest, hkept⟩ := ih hms (g d)
          simp only [hcommutes]
          exact ⟨hdigest, fun d' hd => (hkept d' hd).trans hseen⟩

theorem digest_insert (h : s.StandsApart m f) {v : Bytes} (hv : m.read.run v = .ok f) {ms₁ ms₂ : List RawMember}
    (hms : valuesOf m.name (ms₁ ++ ms₂) = []) {d : σ} (hd : m.isSeen d = false) :
    s.digest d (ms₁ ++ (some m.name, v) :: ms₂) = (s.digest d (ms₁ ++ ms₂)).map f := by
  induction ms₁ generalizing d with
  | nil =>
    rw [List.nil_append, Shape.digest, h.found]
    simp only [hd, hv, Bool.false_eq_true, if_false]
    exact (h.digest hms d).1
  | cons raw ms₁ ih =>
    obtain ⟨name, w⟩ := raw
    cases name with
    | none => rfl
    | some name =>
      rw [List.cons_append, valuesOf_cons] at hms
      by_cases hname : name = m.name
      · rw [if_pos hname] at hms
        cases hms
      rw [if_neg hname] at hms
      rw [List.cons_append, List.cons_append, Shape.digest, Shape.digest]
      cases hfind : s.members.find? fun m => m.name = name with
      | none =>
        simp only
        split
        · rfl
        · exact ih hms hd
      | some m' =>
        have hne : m'.name ≠ m.name := name_of_find? hfind ▸ hname
        simp only
        split
        · rfl
        cases hrun : m'.read.run w with
        | error fault => rfl
        | ok g =>
          have hseen := (h.commutes (List.mem_of_find?_eq_some hfind) hne hrun d).2
          exact ih hms (hseen.trans hd)

/-- Once a draft is completed it makes no difference that a missing member was written out at the value which it is
completed with. -/
theorem digest_insert_complete {τ : Type} {complete : σ → τ} (h : s.StandsApart m f)
    (hcomplete : ∀ d, m.isSeen d = false → complete (f d) = complete d) {v : Bytes} (hv : m.read.run v = .ok f)
    {ms₁ ms₂ : List RawMember} (hms : valuesOf m.name (ms₁ ++ ms₂) = []) {d : σ} (hd : m.isSeen d = false) :
    (s.digest d (ms₁ ++ (some m.name, v) :: ms₂)).map complete = (s.digest d (ms₁ ++ ms₂)).map complete := by
  rw [digest_insert h hv hms hd]
  have hkept := (h.digest hms d).2
  cases hdigest : s.digest d (ms₁ ++ ms₂) with
  | error fault => rfl
  | ok d' => exact congrArg Except.ok (hcomplete d' ((hkept d' hdigest).trans hd))

end Shape
end Json

namespace Config

open Json

theorem forall₂_reads (algs : List Alg) : List.Forall₂ Alg.read.Reads (algs.map Alg.toJson) algs := by
  induction algs with
  | nil => exact .nil
  | cons a algs ih => exact .cons (Alg.reads_toJson a) ih

theorem isItem_toJson (algs : List Alg) : ∀ v ∈ algs.map Alg.toJson, Reader.IsItem v := by
  intro v hv
  obtain ⟨a, -, rfl⟩ := List.mem_map.mp hv
  exact isItem_string a.name

theorem reads_algorithms (algs : List Alg) : (Reader.list Alg.read).Reads (.array (algs.map Alg.toJson)) algs :=
  Reader.reads_list (forall₂_reads algs) (isItem_toJson algs)

theorem takes_toJson (c : Config) : shape.Takes {} [("algorithms", .array (c.algorithms.map Alg.toJson)),
    ("key_ttl", ofDuration c.keyTtl), ("rotation_check_interval", ofDuration c.rotationCheckInterval)]
    ⟨some c.algorithms, some c.keyTtl, some c.rotationCheckInterval⟩ := by
  refine .cons _ (fun d => { d with algorithms := some c.algorithms }) rfl rfl ?_
    (.cons _ (fun d => { d with keyTtl := some c.keyTtl }) rfl rfl ?_
    (.cons _ (fun d => { d with rotationCheckInterval := some c.rotationCheckInterval }) rfl rfl ?_ (.nil _)))
  · exact (reads_algorithms _).map _
  · exact (reads_ofDuration _).map _
  · exact (reads_ofDuration _).map _

theorem reads_toJson (c : Config) : Config.read.Reads c.toJson c :=
  (Shape.reads_object (takes_toJson c) rfl).map Draft.complete

theorem ofJson_toString (c : Config) : ofJson c.toJson.toString = .ok c := (reads_toJson c).run

/-- The text of a member's standard value. -/
def IsStandard (name : String) (v : Bytes) : Prop :=
  (name = "algorithms" ∧ v = Utf8.encode (Value.array (standard.algorithms.map Alg.toJson)).text) ∨
  (name = "key_ttl" ∧ v = Utf8.encode (ofDuration standard.keyTtl).text) ∨
  (name = "rotation_check_interval" ∧ v = Utf8.encode (ofDuration standard.rotationCheckInterval).text)

/-- Members that were missing have been written out at their standard values, each of them anywhere. -/
inductive WritesOut (ms : List RawMember) : List RawMember → Prop where
  | refl : WritesOut ms ms
  | insert {ms₁ ms₂ : List RawMember} {name : String} {v : Bytes} (h : WritesOut ms (ms₁ ++ ms₂))
      (hmissing : valuesOf name (ms₁ ++ ms₂) = []) (hv : IsStandard name v) :
      WritesOut ms (ms₁ ++ (some name, v) :: ms₂)

theorem isLocal_members : ∀ m ∈ shape.members, m.read.IsLocal := by
  simp only [shape, List.forall_mem_cons, List.not_mem_nil, false_imp_iff, implies_true, and_true]
  exact ⟨(Reader.isLocal_choice _).list.map _, isLocal_duration.map _, isLocal_duration.map _⟩

theorem standsApart {m : Member Draft} (hm : m ∈ shape.members) {v : Bytes} {f : Draft → Draft}
    (hf : m.read.run v = .ok f) : shape.StandsApart m f := by
  simp only [shape, List.mem_cons, List.not_mem_nil, or_false] at hm
  refine ⟨?_, fun _ => rfl, fun m' hm' hne => ?_⟩
  · rcases hm with rfl | rfl | rfl <;> rfl
  · simp only [shape, List.mem_cons, List.not_mem_nil, or_false] at hm'
    rcases hm with rfl | rfl | rfl <;> rw [run_map] at hf <;> obtain ⟨x, -, rfl⟩ := map_eq_ok_iff.mp hf <;>
      rcases hm' with rfl | rfl | rfl <;>
      first
      | exact absurd rfl hne
      | exact ⟨_, _, _, rfl, fun _ => ⟨rfl, fun _ => ⟨rfl, rfl⟩⟩⟩

theorem IsStandard.exists_member {name : String} {v : Bytes} (h : IsStandard name v) : ∃ m ∈ shape.members,
    m.name = name ∧ m.isSeen {} = false ∧
      ∃ f, m.read.run v = .ok f ∧ ∀ d, m.isSeen d = false → (f d).complete = d.complete := by
  rcases h with ⟨rfl, rfl⟩ | ⟨rfl, rfl⟩ | ⟨rfl, rfl⟩
  · refine ⟨_, .head _, rfl, rfl, _, ((reads_algorithms _).map _).run_encode, fun d hd => ?_⟩
    obtain ⟨algorithms, ttl, interval⟩ := d
    cases algorithms with
    | none => rfl
    | some x => cases hd
  · refine ⟨_, .tail _ (.head _), rfl, rfl, _, ((reads_ofDuration _).map _).run_encode, fun d hd => ?_⟩
    obtain ⟨algorithms, ttl, interval⟩ := d
    cases ttl with
    | none => rfl
    | some x => cases hd
  · refine ⟨_, .tail _ (.tail _ (.head _)), rfl, rfl, _, ((reads_ofDuration _).map _).run_encode, fun d hd => ?_⟩
    obtain ⟨algorithms, ttl, interval⟩ := d
    cases interval with
    | none => rfl
    | some x => cases hd

theorem outcome_insert {ms₁ ms₂ : List RawMember} {name : String} {v : Bytes}
    (hmissing : valuesOf name (ms₁ ++ ms₂) = []) (hv : IsStandard name v) :
    (shape.digest {} (ms₁ ++ (some name, v) :: ms₂)).map Draft.complete =
      (shape.digest {} (ms₁ ++ ms₂)).map Draft.complete := by
  obtain ⟨m, hm, rfl, hseen, f, hread, hcomplete⟩ := hv.exists_member
  exact Shape.digest_insert_complete (standsApart hm hread) hcomplete hread hmissing hseen

theorem read_run_of_isObject {bs : Bytes} {ms : List RawMember} (h : IsObject bs ms) :
    Config.read.run bs = (shape.digest {} ms).map Draft.complete := by
  rw [Config.read, run_map, Shape.read_isObject isLocal_members h]

theorem read_run_eq_of_writesOut {bs bs' : Bytes} {ms ms' : List RawMember} (h : IsObject bs ms) (h' : IsObject bs' ms')
    (hout : WritesOut ms ms') : Config.read.run bs' = Config.read.run bs := by
  rw [read_run_of_isObject h, read_run_of_isObject h']
  clear h'
  induction hout with
  | refl => rfl
  | insert _ hmissing hv ih => exact (outcome_insert hmissing hv).trans ih

/-- Every configuration reads back from its text, and an object is read, or refused, like any that is the same but for
members that it misses and that are written out there at their standard values. -/
theorem text_reads_back_and_missing_are_standard : (∀ c : Config, ofJson c.toJson.toString = .ok c) ∧
    ∀ bs bs' ms ms', IsObject bs ms → IsObject bs' ms' → WritesOut ms ms' → Config.read.run bs = Config.read.run bs' :=
  ⟨ofJson_toString, fun _ _ _ _ h h' hout => (read_run_eq_of_writesOut h h' hout).symm⟩

theorem empty_object_reads_as_with_ttl :
    IsObject (Utf8.ofString "\x7b\x7d") [] ∧
      IsObject (Utf8.ofString "\x7b\"key_ttl\":\"30days\"\x7d") [(some "key_ttl", Utf8.ofString "\"30days\"")] ∧
      WritesOut [] [(some "key_ttl", Utf8.ofString "\"30days\"")] ∧
      Config.read.run (Utf8.ofString "\x7b\x7d") =
        Config.read.run (Utf8.ofString "\x7b\"key_ttl\":\"30days\"\x7d") := by
  have hempty : IsObject (Utf8.ofString "\x7b\x7d") [] :=
    ⟨[], [0x7D], [], by decide, isBlank_nil, .nil (b := []) isBlank_nil, isBlank_nil⟩
  have hname : StringTail (Utf8.ofString "key_ttl\"") := tail_of_skip (by decide)
  have hvalue : IsJson .value (Utf8.ofString "\"30days\"") := by
    have htail : StringTail (Utf8.ofString "30days\"") := tail_of_skip (by decide)
    have htext : Utf8.ofString "\"30days\"" = 0x22 :: Utf8.ofString "30days\"" := by decide
    rw [htext]
    exact .string htail
  have hnames : Names (Utf8.ofString "key_ttl\"") (some "key_ttl") := names_of_body (by decide +kernel)
  have hmember : Members true _ [(some "key_ttl", Utf8.ofString "\"30days\"")] :=
    .cons isBlank_nil isBlank_nil hname hnames isBlank_nil isBlank_nil hvalue (.nil (b := []) isBlank_nil)
  have hfull : IsObject (Utf8.ofString "\x7b\"key_ttl\":\"30days\"\x7d")
      [(some "key_ttl", Utf8.ofString "\"30days\"")] :=
    ⟨[], _, [], by decide +kernel, isBlank_nil, hmember, isBlank_nil⟩
  have hout : WritesOut [] ([] ++ [(some "key_ttl", Utf8.ofString "\"30days\"")]) :=
    .insert .refl rfl (.inr (.inl ⟨rfl, by decide +kernel⟩))
  exact ⟨hempty, hfull, hout, text_reads_back_and_missing_are_standard.2 _ _ _ _ hempty hfull hout⟩

end Config
end Keyring
