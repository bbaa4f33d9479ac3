import Keyring.Proofs.Json.Verbatim

/-!
What was read of a text, told by the text as it stands. A reader that succeeds has stood before a value, and its
result is told by that value. Main statement: a strict record that is read from an object has gathered all of
the object's members, each of them one of the record's and no two of one name.
-/
set_option autoImplicit false

namespace Keyring.Json

namespace Reader

variable {α β : Type}

/-- Where the reader succeeds it has taken a value, to which the result stands in the relation. -/
def Echoes (r : Reader α) (related : Value → α → Prop) : Prop :=
  ∀ bs x rest, r bs = .ok (x, rest) → ∃ v, Spells bs v rest ∧ related v x

variable {r : Reader α} {related : Value → α → Prop}

theorem Echoes.mono {related' : Value → α → Prop} (h : r.Echoes related) (hr : ∀ v x, related v x → related' v x) :
    r.Echoes related' := by
  intro bs x rest hread
  obtain ⟨v, hv, hx⟩ := h _ _ _ hread
  exact ⟨v, hv, hr v x hx⟩

theorem Echoes.map (g : α → β) (h : r.Echoes related) :
    (g <$> r).Echoes fun v y => ∃ x, related v x ∧ y = g x := by
  intro bs y rest hread
  obtain ⟨x, rest', hread, heq⟩ := map_eq_ok.mp hread
  cases heq
  obtain ⟨v, hv, hx⟩ := h _ _ _ hread
  exact ⟨v, hv, x, hx, rfl⟩

theorem Echoes.check {f : α → Reader β} {found : α → β → Prop} (h : r.Echoes related)
    (hf : ∀ x y bs rest, f x bs = .ok (y, rest) → rest = bs ∧ found x y) :
    (r >>= f).Echoes fun v y => ∃ x, related v x ∧ found x y := by
  intro bs y rest hread
  obtain ⟨x, rest', hread, hcheck⟩ := bind_eq_ok.mp hread
  obtain ⟨rfl, hfound⟩ := hf _ _ _ _ hcheck
  obtain ⟨v, hv, hx⟩ := h _ _ _ hread
  exact ⟨v, hv, x, hx, hfound⟩

theorem Echoes.run {text : String} {x : α} (h : r.Echoes related) (hrun : r.run (Utf8.ofString text) = .ok x) :
    ∃ v, Value.ofTextVerbatim text = .ok v ∧ related v x := by
  unfold Reader.run at hrun
  split at hrun
  · cases hrun
  · rename_i y rest hread
    split at hrun
    · cases hrun
    · rename_i hfinish
      cases hrun
      obtain ⟨v, ⟨-, hv⟩, hx⟩ := h _ _ _ hread
      refine ⟨v, ?_, hx⟩
      simp only [Value.ofTextVerbatim, Reader.run, hv _ (Nat.le_add_right _ _), hfinish]

theorem mismatch_ne_ok {expected : String} {bs : Bytes} {y : α × Bytes} : mismatch expected bs ≠ .ok y := by
  intro h
  obtain ⟨o, t, -, h⟩ := bind_eq_ok.mp h
  -- whatever comes, the reader fails behind it
  have hfail {γ : Type} {r : Reader γ} {f : γ → Fault} (h : (r >>= fun x => (fail (f x) : Reader α)) t = .ok y) :
      False := by
    obtain ⟨x, t', -, h⟩ := bind_eq_ok.mp h
    cases h
  cases o with
  | none => cases h
  | some b =>
    simp only at h
    split at h
    · exact hfail h
    split at h
    · exact hfail h
    split at h
    · exact hfail h
    split at h
    · obtain ⟨x, t', -, h⟩ := bind_eq_ok.mp h
      obtain ⟨s, t'', -, h⟩ := bind_eq_ok.mp h
      cases h
    split at h
    · cases h
    split at h
    · cases h
    · exact hfail h

theorem echoes_stringFor (expected : String) : (stringFor expected).Echoes fun v s => v = .string s := by
  intro bs s rest h
  obtain ⟨o, t, hpeek, h⟩ := bind_eq_ok.mp h
  split at h
  · rename_i ho
    subst ho
    obtain ⟨x, t', htake, h⟩ := bind_eq_ok.mp h
    cases htake
    exact ⟨.string s, spells_string hpeek h, rfl⟩
  · exact absurd h mismatch_ne_ok

theorem echoes_string : string.Echoes fun v s => v = .string s := echoes_stringFor _

theorem echoes_boolean : boolean.Echoes fun v b => v = .boolean b := by
  intro bs b rest h
  obtain ⟨o, t, hpeek, h⟩ := bind_eq_ok.mp h
  split at h
  · obtain ⟨x, t', hword, h⟩ := bind_eq_ok.mp h
    cases h
    exact ⟨_, spells_true hpeek hword, rfl⟩
  · obtain ⟨x, t', hword, h⟩ := bind_eq_ok.mp h
    cases h
    exact ⟨_, spells_false hpeek hword, rfl⟩
  · exact absurd h mismatch_ne_ok

theorem peek_idem {bs t : Bytes} {o : Option UInt8} (h : peek bs = .ok (o, t)) : peek t = .ok (o, t) := by
  cases h
  have hidem : (bs.dropWhile isSpace).dropWhile isSpace = bs.dropWhile isSpace :=
    List.dropWhile_eq_self_iff.mpr fun hl => List.dropWhile_get_zero_not _ bs hl
  simp only [peek, hidem]

theorem Spells.of_peek {bs t rest : Bytes} {o : Option UInt8} {v : Value} (hpeek : peek bs = .ok (o, t))
    (h : Spells t v rest) : Spells bs v rest := by
  obtain ⟨hshort, h⟩ := h
  have hlength : t.length ≤ bs.length := by
    cases hpeek
    exact List.length_dropWhile_le _ _
  refine .of_step (Nat.lt_of_lt_of_le hshort hlength) fun n hn => ?_
  have hread := h (n + 1) (by omega)
  rw [verbatim, bind_ok (peek_idem hpeek)] at hread
  rw [verbatim, bind_ok hpeek]
  exact hread

theorem Echoes.nullable (h : r.Echoes related) :
    (nullable r).Echoes fun v o => (v = .null ∧ o = none) ∨ ∃ x, related v x ∧ o = some x := by
  intro bs o rest hread
  obtain ⟨b, t, hpeek, hread⟩ := bind_eq_ok.mp hread
  split at hread
  · rename_i hb
    subst hb
    obtain ⟨x, t', hword, hread⟩ := bind_eq_ok.mp hread
    cases hread
    exact ⟨.null, spells_null hpeek hword, .inl ⟨rfl, rfl⟩⟩
  · obtain ⟨v, hv, hx⟩ := h.map some _ _ _ hread
    exact ⟨v, hv.of_peek hpeek, .inr hx⟩

theorem choiceNamed_eq_ok {table : List (String × α)} {name : String} {bs rest : Bytes} {x : α}
    (h : choiceNamed table name bs = .ok (x, rest)) :
    rest = bs ∧ ∃ entry, table.find? (fun entry => entry.1 = name) = some entry ∧ entry.2 = x := by
  unfold choiceNamed at h
  cases hfound : table.find? (fun entry => entry.1 = name) with
  | none =>
    rw [hfound] at h
    cases h
  | some entry =>
    rw [hfound] at h
    cases h
    exact ⟨rfl, entry, rfl, rfl⟩

theorem echoes_choice (table : List (String × α)) : (choice table).Echoes fun v x =>
    ∃ name entry, (v = .string name ∨ v = .object [(name, .null)]) ∧
      table.find? (fun entry => entry.1 = name) = some entry ∧ entry.2 = x := by
  intro bs x rest h
  obtain ⟨o, t, hpeek, h⟩ := bind_eq_ok.mp h
  split at h
  · obtain ⟨_, t₁, htake, h⟩ := bind_eq_ok.mp h
    cases htake
    obtain ⟨name, t₂, hname, h⟩ := bind_eq_ok.mp h
    obtain ⟨rfl, entry, hentry, hx⟩ := choiceNamed_eq_ok h
    exact ⟨.string name, spells_string hpeek hname, name, entry, .inl rfl, hentry, hx⟩
  · obtain ⟨_, t₁, htake, h⟩ := bind_eq_ok.mp h
    cases htake
    obtain ⟨_, t₂, hquote, h⟩ := bind_eq_ok.mp h
    obtain ⟨name, t₃, hname, h⟩ := bind_eq_ok.mp h
    obtain ⟨x', t₄, hchoice, h⟩ := bind_eq_ok.mp h
    obtain ⟨rfl, entry, hentry, rfl⟩ := choiceNamed_eq_ok hchoice
    obtain ⟨_, t₅, hcolon, h⟩ := bind_eq_ok.mp h
    obtain ⟨_, t₆, hunit, h⟩ := bind_eq_ok.mp h
    obtain ⟨_, _, hend, h⟩ := bind_eq_ok.mp h
    cases h
    have hnull : Spells t₅ .null t₆ := by
      obtain ⟨b, u, hpeek', hunit⟩ := bind_eq_ok.mp hunit
      split at hunit
      · rename_i hb
        subst hb
        exact spells_null hpeek' hunit
      · exact absurd hunit mismatch_ne_ok
    have hfirst : separate 0x7D true (t.drop 1) = .ok (false, 0x22 :: t₂) := by
      rw [separate, bind_ok (mark_eq_ok hquote).1]
      rfl
    have hlast : separate 0x7D false t₆ = .ok (true, 0x7D :: rest) := by
      rw [separate, bind_ok (mark_eq_ok hend).1]
      rfl
    have hmembers := spellsMembers_step hfirst (mark_cons rfl _) hname hcolon hnull (spellsMembers_end hlast)
    exact ⟨_, spells_object hpeek hmembers, name, entry, .inr rfl, hentry, rfl⟩
  · cases h

end Reader

namespace Shape

open Reader

variable {σ : Type} {s : Shape σ} {draft draft' : σ}

/-- What a member named so is read from, and what this does to a draft. -/
abbrev Law (σ : Type) : Type := String → Value → (σ → σ) → Prop

/-- A draft gathers members one after another: each is one of the record's and has not been seen. -/
inductive Gathers (s : Shape σ) (law : Law σ) : σ → List (String × Value) → σ → Prop where
  | nil (draft : σ) : Gathers s law draft [] draft
  | cons {draft draft' : σ} {name : String} {v : Value} {ms : List (String × Value)} {m : Member σ} {f : σ → σ}
      (hm : s.members.find? (fun m => m.name = name) = some m) (hseen : m.isSeen draft = false)
      (hread : law name v f) (h : Gathers s law (f draft) ms draft') : Gathers s law draft ((name, v) :: ms) draft'

/-- A draft takes the values of members in their order. -/
inductive Lines (law : Law σ) : List (Member σ) → σ → List Value → σ → Prop where
  | nil (draft : σ) : Lines law [] draft [] draft
  | cons {m : Member σ} {more : List (Member σ)} {draft draft' : σ} {v : Value} {vs : List Value} {f : σ → σ}
      (hread : law m.name v f) (h : Lines law more (f draft) vs draft') :
      Lines law (m :: more) draft (v :: vs) draft'

/-- The law of a strict record: its members are read by it, and are seen from then on. -/
structure Obeys (s : Shape σ) (law : Law σ) : Prop where
  strict : s.isStrict = true
  complete : ∀ m ∈ s.members, m.absence ≠ .defaulted
  read : ∀ m ∈ s.members, m.read.Echoes (law m.name)
  seen : ∀ m ∈ s.members, ∀ v f draft, law m.name v f → m.isSeen (f draft) = true
  kept : ∀ m ∈ s.members, ∀ name v f draft, law name v f → m.isSeen draft = true → m.isSeen (f draft) = true

variable {law : Law σ} {vs : List Value} {ms : List (String × Value)}

theorem lines_nil (h : Lines law [] draft vs draft') : vs = [] ∧ draft = draft' := by
  cases h
  exact ⟨rfl, rfl⟩

theorem lines_cons {m : Member σ} {more : List (Member σ)} (h : Lines law (m :: more) draft vs draft') :
    ∃ v vs' f, vs = v :: vs' ∧ law m.name v f ∧ Lines law more (f draft) vs' draft' := by
  cases h with
  | cons hread h => exact ⟨_, _, _, rfl, hread, h⟩

theorem find?_name {name : String} {m : Member σ} (h : s.members.find? (fun m => m.name = name) = some m) :
    m ∈ s.members ∧ m.name = name := ⟨List.mem_of_find?_eq_some h, by simpa using List.find?_some h⟩

theorem Gathers.not_seen (hs : s.Obeys law) (h : s.Gathers law draft ms draft') {name : String} {m : Member σ}
    (hm : s.members.find? (fun m => m.name = name) = some m) (hseen : m.isSeen draft = true) :
    name ∉ ms.map Prod.fst := by
  induction h with
  | nil draft => exact List.not_mem_nil
  | cons hm' hseen' hread _ ih =>
    intro hmem
    rcases List.mem_cons.mp hmem with rfl | hmem
    · obtain rfl := Option.some.inj (hm.symm.trans hm')
      rw [hseen] at hseen'
      cases hseen'
    · exact ih (hs.kept m (find?_name hm).1 _ _ _ _ hread hseen) hmem

theorem Gathers.names (hs : s.Obeys law) (h : s.Gathers law draft ms draft') :
    (ms.map Prod.fst).Nodup ∧ ∀ name ∈ ms.map Prod.fst, name ∈ s.members.map Member.name := by
  induction h with
  | nil draft => exact ⟨List.nodup_nil, nofun⟩
  | cons hm _ hread h ih =>
    obtain ⟨hmem, rfl⟩ := find?_name hm
    refine ⟨List.nodup_cons.mpr ⟨h.not_seen hs hm (hs.seen _ hmem _ _ _ hread), ih.1⟩, ?_⟩
    exact List.forall_mem_cons.mpr ⟨List.mem_map_of_mem hmem, ih.2⟩

/-- What stands in the draft afterwards has stood in it before, or a member of that name has put it there. -/
theorem Gathers.origin {τ : Type} (get : σ → Option τ) (name : String) (told : Value → τ → Prop)
    (hlaw : ∀ name' v f draft x, law name' v f → get (f draft) = some x → get draft = some x ∨ name' = name ∧ told v x)
    (h : s.Gathers law draft ms draft') {x : τ} (hx : get draft' = some x) :
    get draft = some x ∨ ∃ v, (name, v) ∈ ms ∧ told v x := by
  induction h with
  | nil draft => exact .inl hx
  | cons _ _ hread _ ih =>
    rcases ih hx with hx | ⟨v, hv, htold⟩
    · rcases hlaw _ _ _ _ _ hread hx with hx | ⟨rfl, htold⟩
      · exact .inl hx
      · exact .inr ⟨_, List.mem_cons_self, htold⟩
    · exact .inr ⟨v, List.mem_cons_of_mem _ hv, htold⟩

theorem Gathers.keeps {inv : σ → Prop} (hlaw : ∀ name v f draft, law name v f → inv draft → inv (f draft))
    (h : s.Gathers law draft ms draft') (hi : inv draft) : inv draft' := by
  induction h with
  | nil draft => exact hi
  | cons _ _ hread _ ih => exact ih (hlaw _ _ _ _ hread hi)

theorem Lines.keeps {inv : σ → Prop} (hlaw : ∀ name v f draft, law name v f → inv draft → inv (f draft))
    {more : List (Member σ)} (h : Lines law more draft vs draft') (hi : inv draft) : inv draft' := by
  induction h with
  | nil draft => exact hi
  | cons hread _ ih => exact ih (hlaw _ _ _ _ hread hi)

theorem readObject_gathers (hs : s.Obeys law) {fuel : Nat} {isFirst : Bool} {bs rest : Bytes}
    (h : s.readObject fuel isFirst draft bs = .ok (draft', rest)) :
    ∃ ms, SpellsMembers isFirst bs ms rest ∧ s.Gathers law draft ms draft' := by
  induction fuel generalizing isFirst draft bs with
  | zero => cases h
  | succ fuel ih =>
    obtain ⟨isEnd, t₁, hsep, h⟩ := Reader.bind_eq_ok.mp h
    cases isEnd with
    | true =>
      simp only [if_true] at h
      cases hmissing : s.missing? draft with
      | some name =>
        rw [hmissing] at h
        cases h
      | none =>
        rw [hmissing] at h
        obtain ⟨_, t₂, htake, h⟩ := Reader.bind_eq_ok.mp h
        cases htake
        cases h
        exact ⟨[], spellsMembers_end hsep, .nil _⟩
    | false =>
      simp only [Bool.false_eq_true, if_false] at h
      obtain ⟨_, t₂, hquote, h⟩ := Reader.bind_eq_ok.mp h
      obtain ⟨name, t₃, hname, h⟩ := Reader.bind_eq_ok.mp h
      obtain ⟨next, t₄, hnamed, hlater⟩ := Reader.bind_eq_ok.mp h
      unfold readNamed at hnamed
      cases hm : s.members.find? (fun m => m.name = name) with
      | none =>
        rw [hm] at hnamed
        simp only [hs.strict, if_true] at hnamed
        cases hnamed
      | some m =>
        rw [hm] at hnamed
        simp only at hnamed
        split at hnamed
        · cases hnamed
        · rename_i hseen
          obtain ⟨_, t₅, hcolon, hnamed⟩ := Reader.bind_eq_ok.mp hnamed
          obtain ⟨f, t₆, hread, hnamed⟩ := Reader.bind_eq_ok.mp hnamed
          cases hnamed
          obtain ⟨hmem, rfl⟩ := find?_name hm
          obtain ⟨v, hv, hlaw⟩ := hs.read m hmem _ _ _ hread
          obtain ⟨ms, hms, hgathers⟩ := ih hlater
          refine ⟨(m.name, v) :: ms, spellsMembers_step hsep hquote hname hcolon hv hms, ?_⟩
          exact .cons hm (Bool.eq_false_iff.mpr hseen) hlaw hgathers

theorem readArray_lines (hs : s.Obeys law) {index : Nat} {more : List (Member σ)} (hmore : ∀ m ∈ more, m ∈ s.members)
    {bs rest : Bytes} (h : s.readArray index more draft bs = .ok (draft', rest)) :
    ∃ vs, SpellsElements (index = 0) bs vs rest ∧ Lines law more draft vs draft' := by
  induction more generalizing index draft bs with
  | nil =>
    obtain ⟨_, _, hmark, h⟩ := Reader.bind_eq_ok.mp h
    cases h
    have hsep : separate 0x5D (index = 0) bs = .ok (true, 0x5D :: rest) := by
      rw [separate, bind_ok (mark_eq_ok hmark).1]
      rfl
    exact ⟨[], spellsElements_end hsep, .nil _⟩
  | cons m more ih =>
    have hm := hmore m List.mem_cons_self
    obtain ⟨isEnd, t₁, hsep, h⟩ := Reader.bind_eq_ok.mp h
    cases isEnd with
    | true =>
      simp only [if_true, if_neg (hs.complete m hm)] at h
      cases h
    | false =>
      simp only [Bool.false_eq_true, if_false] at h
      obtain ⟨f, t₂, hread, h⟩ := Reader.bind_eq_ok.mp h
      obtain ⟨v, hv, hlaw⟩ := hs.read m hm _ _ _ hread
      obtain ⟨vs, hvs, hlines⟩ := ih (fun m' hm' => hmore m' (List.mem_cons_of_mem m hm')) h
      exact ⟨v :: vs, spellsElements_step hsep hv hvs, .cons hlaw hlines⟩

theorem echoes_read (hs : s.Obeys law) (draft : σ) : (s.read draft).Echoes fun v draft' =>
    (∃ ms, v = .object ms ∧ s.Gathers law draft ms draft') ∨
      ∃ vs, v = .array vs ∧ Lines law s.members draft vs draft' := by
  intro bs draft' rest h
  obtain ⟨o, t, hpeek, h⟩ := Reader.bind_eq_ok.mp h
  split at h
  · obtain ⟨_, t', htake, h⟩ := Reader.bind_eq_ok.mp h
    cases htake
    obtain ⟨ms, hms, hgathers⟩ := readObject_gathers hs h
    exact ⟨.object ms, spells_object hpeek hms, .inl ⟨ms, rfl, hgathers⟩⟩
  · obtain ⟨_, t', htake, h⟩ := Reader.bind_eq_ok.mp h
    cases htake
    obtain ⟨vs, hvs, hlines⟩ := readArray_lines hs (fun _ hm => hm) h
    exact ⟨.array vs, spells_array hpeek hvs, .inr ⟨vs, rfl, hlines⟩⟩
  · exact absurd h mismatch_ne_ok

end Shape
end Keyring.Json
