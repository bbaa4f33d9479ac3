import Keyring.Proofs.Json.Locality

/-!
Records told by the grammar. Main statements: what a record is read as from an object is told by the members alone, one
after another, and from an array by its elements in their order; and nothing else is read as a record.
-/
set_option autoImplicit false

namespace Keyring.Json

open Reader

namespace Reader

variable {α β : Type} {r : Reader α} {bs v : Bytes} {x : α}

/-- All that the reader takes is a value. -/
def IsSound (r : Reader α) : Prop := ∀ bs x rest, r bs = .ok (x, rest) →
  ∃ blank v, bs = blank ++ (v ++ rest) ∧ IsBlank blank ∧ IsJson .value v

theorem IsSound.map (g : α → β) (h : r.IsSound) : (g <$> r).IsSound := by
  intro bs y rest hread
  obtain ⟨x, rest', hread, heq⟩ := map_eq_ok.mp hread
  cases heq
  exact h _ _ _ hread

theorem isSound_string : string.IsSound := by
  intro bs s rest h
  obtain ⟨o, t, hpeek, hread⟩ := bind_eq_ok.mp h
  split at hread
  · rename_i ho
    subst ho
    obtain ⟨blank, t', rfl, hblank, rfl⟩ := exists_peek_some hpeek
    obtain ⟨_, t₁, htake, hbody⟩ := bind_eq_ok.mp hread
    cases htake
    obtain ⟨u, hu, htail, -⟩ := exists_stringBody hbody
    exact ⟨blank, 0x22 :: u, congrArg (fun t => blank ++ 0x22 :: t) hu, hblank, .string htail⟩
  · exact absurd hread mismatch_ne_ok

theorem IsSound.nullable (h : r.IsSound) : (nullable r).IsSound := by
  intro bs o rest hread
  obtain ⟨b, t, hpeek, hmore⟩ := bind_eq_ok.mp hread
  split at hmore
  · rename_i hb
    subst hb
    obtain ⟨blank, t', rfl, hblank, rfl⟩ := exists_peek_some hpeek
    obtain ⟨_, t₁, hword, heq⟩ := bind_eq_ok.mp hmore
    cases heq
    exact ⟨blank, _, congrArg (blank ++ ·) (exists_literal hword), hblank, .nullWord⟩
  · obtain ⟨blank, rfl, hblank, -⟩ := exists_peek hpeek
    obtain ⟨blank', v, rfl, hblank', hv⟩ := h.map some _ _ _ hmore
    exact ⟨blank ++ blank', v, by simp, hblank.append hblank', hv⟩

theorem run_eq_ok (h : r.run bs = .ok x) : ∃ rest, r bs = .ok (x, rest) ∧ IsBlank rest := by
  unfold Reader.run at h
  split at h
  · cases h
  · rename_i y rest hread
    split at h
    · cases h
    · rename_i hfinish
      cases h
      refine ⟨rest, hread, ?_⟩
      obtain ⟨o, t, hpeek, hnone⟩ := bind_eq_ok.mp hfinish
      cases hpeek
      split at hnone
      · rename_i hhead
        exact List.dropWhile_eq_nil_iff.mp (List.head?_eq_none_iff.mp hhead)
      · cases hnone

theorem run_of_blank {rest : Bytes} {y : Except Fault α} (h : r bs = y.map fun x => (x, rest)) (hrest : IsBlank rest) :
    r.run bs = y := by
  cases y with
  | error fault => simp only [Reader.run, h, Except.map]
  | ok x =>
    have hdrop : rest.dropWhile isSpace = [] := List.dropWhile_eq_nil_iff.mpr hrest
    have hfinish : finish rest = .ok ((), []) := by simp [finish, bind, StateT.bind, Except.bind, peek, hdrop]
    simp only [Reader.run, h, Except.map, hfinish]

end Reader

section values

variable {α β : Type} {r : Reader α} {bs v : Bytes}

def IsNullable (v : Bytes) (o : Option String) : Prop :=
  (v = [0x6E, 0x75, 0x6C, 0x6C] ∧ o = none) ∨ ∃ s, o = some s ∧ IsString v s

theorem map_eq_ok_iff {x : Except Fault α} {g : α → β} {y : β} : x.map g = .ok y ↔ ∃ a, x = .ok a ∧ g a = y := by
  cases x <;> simp [Except.map]

theorem string_run_iff (hv : IsJson .value v) {s : String} : string.run v = .ok s ↔ IsString v s := by
  constructor
  · intro h
    have hread : stringFor "a string" v = .ok (s, []) := by
      have hlocal := isLocal_string.read hv endsNumeral_nil
      rw [List.append_nil, h] at hlocal
      exact hlocal
    obtain ⟨o, t, hpeek, hmore⟩ := Reader.bind_eq_ok.mp hread
    split at hmore
    · rename_i ho
      subst ho
      obtain ⟨b, w, rfl, hspace, -⟩ := hv.value_head
      rw [peek_cons hspace] at hpeek
      cases hpeek
      obtain ⟨_, t₁, htake, hbody⟩ := Reader.bind_eq_ok.mp hmore
      cases htake
      obtain ⟨u, hu, -, hspells⟩ := exists_stringBody hbody
      exact ⟨u, congrArg (0x22 :: ·) (hu.trans (List.append_nil u)), hspells⟩
    · exact absurd hmore mismatch_ne_ok
  · rintro ⟨u, rfl, hspells⟩
    refine run_of_blank (y := .ok s) ?_ isBlank_nil
    have hbody := stringBody_spells hspells []
    rw [List.append_nil] at hbody
    refine (bind_ok (peek_cons rfl u)).trans ?_
    exact (bind_ok (rfl : take (0x22 :: u) = .ok ((), u))).trans hbody

theorem run_map (g : α → β) : (g <$> r).run bs = (r.run bs).map g := by
  cases h : r bs with
  | error fault =>
    have hmap : (g <$> r) bs = .error fault := by simp [Functor.map, StateT.map, bind, Except.bind, h]
    simp only [Reader.run, h, hmap, Except.map]
  | ok p =>
    simp only [Reader.run, map_ok g h, h]
    cases finish p.2 <;> rfl

theorem nullable_run_iff (hv : IsJson .value v) {o : Option String} :
    (nullable string).run v = .ok o ↔ IsNullable v o := by
  obtain ⟨b, t, rfl, hspace, -⟩ := hv.value_head
  by_cases hb : b = 0x6E
  · subst hb
    rw [hv.of_n]
    have hrun : (nullable string).run [0x6E, 0x75, 0x6C, 0x6C] = .ok none := rfl
    rw [hrun]
    constructor
    · intro h
      cases h
      exact .inl ⟨rfl, rfl⟩
    · rintro (⟨-, rfl⟩ | ⟨s, rfl, u, hu, -⟩)
      · rfl
      · cases hu
  · have hrun : (nullable string).run (b :: t) = (string.run (b :: t)).map some := by
      rw [← run_map]
      have hread : nullable string (b :: t) = (some <$> string) (b :: t) := by
        rw [nullable, bind_ok (peek_cons hspace t), if_neg fun h => hb (Option.some.inj h)]
      simp only [Reader.run, hread]
    rw [hrun]
    constructor
    · intro h
      cases hs : string.run (b :: t) with
      | error fault =>
        rw [hs] at h
        cases h
      | ok s =>
        rw [hs] at h
        cases h
        exact .inr ⟨s, rfl, (string_run_iff hv).mp hs⟩
    · rintro (⟨hnull, -⟩ | ⟨s, rfl, hs⟩)
      · exact absurd (List.cons.inj hnull).1 hb
      · rw [(string_run_iff hv).mpr hs]
        rfl

/-- What is done with the result of a reader is done behind the whole text as well. -/
theorem run_check_iff {g : α → Reader β} {f : α → Except Fault β}
    (hg : ∀ x bs, g x bs = (f x).map fun y => (y, bs)) {y : β} :
    (r >>= g).run bs = .ok y ↔ ∃ x, r.run bs = .ok x ∧ f x = .ok y := by
  cases h : r bs with
  | error fault => simp only [Reader.run, bind_error h, h]; simp
  | ok p =>
    obtain ⟨x, rest⟩ := p
    simp only [Reader.run, bind_ok h, h, hg]
    cases hf : f x <;> cases hfinish : finish rest <;> simp [Except.map, hf, hfinish]

end values

section slots

variable {α : Type} {v : Bytes}

def valuesOf (name : String) (ms : List RawMember) : List Bytes := (ms.filter fun m => m.1 = some name).map Prod.snd

@[simp] theorem valuesOf_nil (name : String) : valuesOf name [] = [] := rfl

@[simp] theorem valuesOf_cons (name name' : String) (v : Bytes) (ms : List RawMember) :
    valuesOf name ((some name', v) :: ms) = if name' = name then v :: valuesOf name ms else valuesOf name ms := by
  by_cases h : name' = name <;> simp [valuesOf, h]

def Fills (spells : Bytes → α → Prop) (before : Option α) (vs : List Bytes) (after : Option α) : Prop :=
  (vs = [] ∧ after = before) ∨ ∃ v x, before = none ∧ vs = [v] ∧ spells v x ∧ after = some x

@[simp] theorem fills_nil {spells : Bytes → α → Prop} {before after : Option α} :
    Fills spells before [] after ↔ after = before := by simp [Fills]

theorem fills_cons {spells : Bytes → α → Prop} {before after : Option α} {vs : List Bytes} :
    Fills spells before (v :: vs) after ↔ before = none ∧ ∃ x, spells v x ∧ Fills spells (some x) vs after := by
  constructor
  · rintro (⟨hvs, -⟩ | ⟨w, x, hnone, hvs, hx, rfl⟩)
    · cases hvs
    · cases hvs
      exact ⟨hnone, x, hx, .inl ⟨rfl, rfl⟩⟩
  · rintro ⟨hnone, x, hx, ⟨rfl, rfl⟩ | ⟨w, y, hsome, -⟩⟩
    · exact .inr ⟨v, x, hnone, rfl, hx, rfl⟩
    · cases hsome

theorem fills_none_iff {α : Type} {spells : Bytes → α → Prop} {vs : List Bytes} {x : α} :
    Fills spells none vs (some x) ↔ ∃ v, vs = [v] ∧ spells v x := by
  simp [Fills, eq_comm]

end slots

namespace Shape

variable {σ : Type}

/-- What the members of an object make of a draft, one after another. -/
def digest (s : Shape σ) (draft : σ) : List RawMember → Except Fault σ
  | [] =>
    match s.missing? draft with
    | some name => .error (.missingField name)
    | none => .ok draft
  | (none, _) :: _ => .error .malformed
  | (some name, v) :: ms =>
    match s.members.find? (fun m => m.name = name) with
    | none => if s.isStrict then .error (.unknownField name (s.members.map Member.name)) else digest s draft ms
    | some m =>
      if m.isSeen draft then .error (.duplicateField name)
      else match m.read.run v with
        | .error fault => .error fault
        | .ok f => digest s (f draft) ms

/-- What the elements of an array make of a draft for the given members, of which `index` have been read. -/
def lineup (s : Shape σ) : (index : Nat) → List (Member σ) → σ → List Bytes → Except Fault σ
  | _, [], draft, [] => .ok draft
  | _, [], _, _ :: _ => .error .malformed
  | index, m :: more, draft, [] =>
    if m.absence = .defaulted then lineup s (index + 1) more draft [] else .error (.invalidLength index s.extent)
  | index, m :: more, draft, v :: vs =>
    match m.read.run v with
    | .error fault => .error fault
    | .ok f => lineup s (index + 1) more (f draft) vs

theorem digest_cons {s : Shape σ} {draft d : σ} {name : String} {m : Member σ} {v : Bytes} {ms : List RawMember}
    (hm : s.members.find? (fun m => m.name = name) = some m) : s.digest draft ((some name, v) :: ms) = .ok d ↔
      m.isSeen draft = false ∧ ∃ f, m.read.run v = .ok f ∧ s.digest (f draft) ms = .ok d := by
  rw [digest, hm]
  cases hseen : m.isSeen draft with
  | true => simp [hseen]
  | false => cases hrun : m.read.run v <;> simp [hseen, hrun]

theorem digest_known {s : Shape σ} {α : Type} {r : Reader α} {spells : Bytes → α → Prop} {name : String} {m : Member σ}
    {v : Bytes} {ms : List RawMember} {draft d : σ} (slot : σ → Option α) (fill : α → σ → σ)
    (hr : ∀ {x}, r.run v = .ok x ↔ spells v x)
    (hm : s.members.find? (fun m => m.name = name) = some m) (hseen : m.isSeen draft = (slot draft).isSome)
    (hread : m.read = fill <$> r) : s.digest draft ((some name, v) :: ms) = .ok d ↔
      slot draft = none ∧ ∃ x, spells v x ∧ s.digest (fill x draft) ms = .ok d := by
  rw [digest_cons hm, hseen, hread, run_map, ← Option.not_isSome_iff_eq_none, Bool.not_eq_true]
  refine and_congr_right fun _ => ⟨?_, ?_⟩
  · rintro ⟨f, hf, hmore⟩
    cases hx : r.run v with
    | error fault =>
      rw [hx] at hf
      cases hf
    | ok x =>
      rw [hx] at hf
      cases hf
      exact ⟨x, hr.mp hx, hmore⟩
  · rintro ⟨x, hx, hmore⟩
    exact ⟨fill x, by rw [hr.mpr hx]; rfl, hmore⟩

theorem lineup_cons {s : Shape σ} {index : Nat} {m : Member σ} {more : List (Member σ)} {draft d : σ} {v : Bytes}
    {vs : List Bytes} : s.lineup index (m :: more) draft (v :: vs) = .ok d ↔
      ∃ f, m.read.run v = .ok f ∧ s.lineup (index + 1) more (f draft) vs = .ok d := by
  rw [lineup]
  cases hrun : m.read.run v <;> simp

theorem lineup_nil {s : Shape σ} {index : Nat} {m : Member σ} {more : List (Member σ)} {draft d : σ} :
    s.lineup index (m :: more) draft [] = .ok d ↔
      m.absence = .defaulted ∧ s.lineup (index + 1) more draft [] = .ok d := by
  rw [lineup]
  split <;> simp [*]

theorem lineup_done {s : Shape σ} {index : Nat} {draft d : σ} {vs : List Bytes} :
    s.lineup index [] draft vs = .ok d ↔ vs = [] ∧ d = draft := by
  cases vs <;> simp [lineup, eq_comm]

theorem digest_cons_unknown {s : Shape σ} {draft : σ} {name : String} {v : Bytes} {ms : List RawMember}
    (hm : s.members.find? (fun m => m.name = name) = none) (hstrict : s.isStrict = false) :
    s.digest draft ((some name, v) :: ms) = s.digest draft ms := by
  rw [digest, hm]
  simp [hstrict]

variable {s : Shape σ} {draft : σ} {isFirst : Bool} {bs u rest : Bytes} {fuel : Nat}

theorem readNamed_known {name : String} {m : Member σ} {d e v : Bytes}
    (hm : s.members.find? (fun m => m.name = name) = some m) (hlocal : m.read.IsLocal) (hd : IsBlank d)
    (he : IsBlank e) (hv : IsJson .value v) (hrest : EndsNumeral rest) :
    s.readNamed name draft (d ++ 0x3A :: (e ++ (v ++ rest))) =
      if m.isSeen draft then .error (.duplicateField name) else (m.read.run v).map fun f => (f draft, rest) := by
  rw [readNamed, hm]
  simp only
  split
  · rfl
  · have hread := hlocal.read hv hrest
    rw [← hlocal.blank e _ he] at hread
    refine (bind_ok (mark_blank hd rfl _)).trans ?_
    cases hrun : m.read.run v with
    | error fault =>
      rw [hrun] at hread
      exact bind_error hread
    | ok f =>
      rw [hrun] at hread
      exact bind_ok hread

theorem readNamed_unknown {name : String} {d e v : Bytes} (hm : s.members.find? (fun m => m.name = name) = none)
    (hd : IsBlank d) (he : IsBlank e) (hv : IsJson .value v) (hrest : EndsNumeral rest) :
    s.readNamed name draft (d ++ 0x3A :: (e ++ (v ++ rest))) =
      if s.isStrict then .error (.unknownField name (s.members.map Member.name)) else .ok (draft, rest) := by
  rw [readNamed, hm]
  simp only
  split
  · rfl
  · exact (bind_ok (mark_blank hd rfl _)).trans (bind_ok (skipValue_isJson he hv hrest))

/-- Members are read one after another, and the end of the object behind them. -/
theorem readObject_digest (hlocal : ∀ m ∈ s.members, m.read.IsLocal) {ms : List RawMember} (h : Members isFirst u ms)
    (hfuel : u.length ≤ fuel) (rest : Bytes) :
    s.readObject fuel isFirst draft (u ++ rest) = (s.digest draft ms).map fun d => (d, rest) := by
  induction h generalizing fuel draft with
  | @nil isFirst b hb =>
    obtain ⟨k, rfl⟩ : ∃ k, fuel = k + 1 := ⟨fuel - 1, by simp at hfuel; omega⟩
    rw [List.append_assoc]
    refine (bind_ok (separate_blank hb (c := 0x7D) rfl isFirst rest)).trans ?_
    rw [digest, if_pos rfl]
    cases s.missing? draft <;> rfl
  | @cons isFirst b c n d e v u name ms hb hc hn hname hd he hv h ih =>
    have hends := h.isJson.endsNumeral_members rest
    simp only [List.length_append, List.length_cons] at hfuel
    obtain ⟨k, rfl⟩ : ∃ k, fuel = k + 1 := ⟨fuel - 1, by omega⟩
    have hmore (draft : σ) : s.readObject k false draft (u ++ rest) = _ := ih (by omega)
    simp only [List.append_assoc, List.cons_append]
    refine (bind_ok (separate_item hb hc (x := 0x22) rfl (by decide) (by decide) isFirst _)).trans ?_
    rw [if_neg (by decide)]
    refine (bind_ok (mark_cons rfl _)).trans ?_
    cases name with
    | none => exact bind_error (stringBody_names hn hname _)
    | some name =>
      refine (bind_ok (stringBody_names hn hname _)).trans ?_
      rw [digest]
      cases hm : s.members.find? fun m => m.name = name with
      | none =>
        have hnamed : s.readNamed name draft _ = _ := readNamed_unknown hm hd he hv hends
        by_cases hstrict : s.isStrict = true
        · rw [if_pos hstrict] at hnamed ⊢
          exact bind_error hnamed
        · rw [if_neg hstrict] at hnamed ⊢
          exact (bind_ok hnamed).trans (hmore draft)
      | some m =>
        have hnamed : s.readNamed name draft _ = _ :=
          readNamed_known hm (hlocal m (List.mem_of_find?_eq_some hm)) hd he hv hends
        simp only
        by_cases hseen : m.isSeen draft = true
        · rw [if_pos hseen] at hnamed ⊢
          exact bind_error hnamed
        · rw [if_neg hseen] at hnamed ⊢
          cases hrun : m.read.run v with
          | error fault =>
            rw [hrun] at hnamed
            exact bind_error hnamed
          | ok f =>
            rw [hrun] at hnamed
            exact (bind_ok hnamed).trans (hmore (f draft))

theorem read_isObject (hlocal : ∀ m ∈ s.members, m.read.IsLocal) {ms : List RawMember} (h : IsObject bs ms) :
    (s.read draft).run bs = s.digest draft ms := by
  obtain ⟨b, u, c, rfl, hb, hu, hc⟩ := h
  refine run_of_blank ?_ hc
  refine (bind_ok (peek_blank hb rfl _)).trans ?_
  refine (bind_ok (rfl : take (0x7B :: _) = .ok ((), _))).trans ?_
  have hfuel : u.length ≤ (u ++ c).length + 1 := by
    rw [List.length_append]
    omega
  exact readObject_digest hlocal hu hfuel c

theorem readArray_lineup {members : List (Member σ)} (hlocal : ∀ m ∈ members, m.read.IsLocal) {index : Nat}
    {vs : List Bytes} (h : Elements (decide (index = 0)) u vs) (rest : Bytes) :
    s.readArray index members draft (u ++ rest) = (s.lineup index members draft vs).map fun d => (d, rest) := by
  induction members generalizing index draft u vs with
  | nil =>
    generalize hfirst : decide (index = 0) = isFirst at h
    cases h with
    | nil hb =>
      rw [List.append_assoc]
      exact bind_ok (mark_blank hb rfl rest)
    | @cons _ b c v u vs hb hc hv h =>
      have hfail : mark 0x5D (b ++ (comma isFirst ++ (c ++ (v ++ (u ++ rest))))) = .error .malformed := by
        obtain ⟨x, t, rfl, hspace, hx⟩ := hv.value_head
        simp only [List.mem_cons, List.not_mem_nil, or_false, not_or] at hx
        cases isFirst with
        | true =>
          rw [comma, if_pos rfl, List.nil_append, ← List.append_assoc]
          exact mark_blank_ne (hb.append hc) hspace hx.1 _
        | false => exact mark_blank_ne hb (y := 0x2C) rfl (by decide) _
      simp only [List.append_assoc]
      exact bind_error hfail
  | cons m more ih =>
    have hlocal' : ∀ m ∈ more, m.read.IsLocal := fun m hm => hlocal m (List.mem_cons_of_mem _ hm)
    have hnext : decide (index + 1 = 0) = false := decide_eq_false (Nat.succ_ne_zero index)
    rw [readArray]
    generalize hfirst : decide (index = 0) = isFirst at h ⊢
    cases h with
    | @nil _ b hb =>
      rw [List.append_assoc]
      refine (bind_ok (separate_blank hb (c := 0x5D) rfl isFirst rest)).trans ?_
      rw [if_pos rfl, lineup]
      split
      · have hend : Elements (decide (index + 1 = 0)) [0x5D] [] := by
          rw [hnext]
          exact .nil isBlank_nil
        exact ih hlocal' hend
      · rfl
    | @cons _ b c v u vs hb hc hv h =>
      have hread := (hlocal m List.mem_cons_self).read hv (h.isJson.endsNumeral_elements rest)
      obtain ⟨x, t, rfl, hspace, hx⟩ := hv.value_head
      simp only [List.mem_cons, List.not_mem_nil, or_false, not_or] at hx
      simp only [List.append_assoc, List.cons_append] at hread ⊢
      refine (bind_ok (separate_item hb hc hspace hx.1 (by decide) isFirst _)).trans ?_
      rw [if_neg (by decide), lineup]
      cases hrun : m.read.run (x :: t) with
      | error fault =>
        rw [hrun] at hread
        exact bind_error hread
      | ok f =>
        rw [hrun] at hread
        exact (bind_ok hread).trans (ih hlocal' (by rw [hnext]; exact h))

theorem read_isArray (hlocal : ∀ m ∈ s.members, m.read.IsLocal) {vs : List Bytes} (h : IsArray bs vs) :
    (s.read draft).run bs = s.lineup 0 s.members draft vs := by
  obtain ⟨b, u, c, rfl, hb, hu, hc⟩ := h
  refine run_of_blank ?_ hc
  refine (bind_ok (peek_blank hb rfl _)).trans ?_
  refine (bind_ok (rfl : take (0x5B :: _) = .ok ((), _))).trans ?_
  have hu : Elements (decide (0 = 0)) u vs := hu
  exact readArray_lineup hlocal hu c

theorem exists_readNamed (hsound : ∀ m ∈ s.members, m.read.IsSound) {name : String} {draft' : σ}
    (h : s.readNamed name draft bs = .ok (draft', rest)) :
    ∃ d e v, bs = d ++ 0x3A :: (e ++ (v ++ rest)) ∧ IsBlank d ∧ IsBlank e ∧ IsJson .value v := by
  unfold readNamed at h
  cases hm : s.members.find? fun m => m.name = name with
  | none =>
    simp only [hm] at h
    split at h
    · cases h
    · obtain ⟨_, t, hcolon, hread⟩ := Reader.bind_eq_ok.mp h
      obtain ⟨_, t', hskip, heq⟩ := Reader.bind_eq_ok.mp hread
      cases heq
      obtain ⟨d, rfl, hd⟩ := exists_mark hcolon
      obtain ⟨e, v, rfl, he, hv⟩ := exists_skipValue hskip
      exact ⟨d, e, v, rfl, hd, he, hv⟩
  | some m =>
    simp only [hm] at h
    split at h
    · cases h
    · obtain ⟨_, t, hcolon, hread⟩ := Reader.bind_eq_ok.mp h
      obtain ⟨f, t', hvalue, heq⟩ := Reader.bind_eq_ok.mp hread
      cases heq
      obtain ⟨d, rfl, hd⟩ := exists_mark hcolon
      obtain ⟨e, v, rfl, he, hv⟩ := hsound m (List.mem_of_find?_eq_some hm) _ _ _ hvalue
      exact ⟨d, e, v, rfl, hd, he, hv⟩

theorem exists_members (hsound : ∀ m ∈ s.members, m.read.IsSound) {draft' : σ}
    (h : s.readObject fuel isFirst draft bs = .ok (draft', rest)) : ∃ u ms, bs = u ++ rest ∧ Members isFirst u ms := by
  induction fuel generalizing isFirst draft bs with
  | zero => cases h
  | succ fuel ih =>
    rw [readObject] at h
    obtain ⟨isEnd, t, hsep, hread⟩ := Reader.bind_eq_ok.mp h
    rcases exists_separate hsep with ⟨rfl, blank, t', rfl, hblank, rfl⟩ | ⟨rfl, blank, blank', rfl, hblank, hblank'⟩
    · rw [if_pos rfl] at hread
      cases hmissing : s.missing? draft with
      | some name =>
        simp only [hmissing] at hread
        cases hread
      | none =>
        simp only [hmissing] at hread
        cases hread
        exact ⟨blank ++ [0x7D], [], by simp, .nil hblank⟩
    · rw [if_neg (by decide)] at hread
      obtain ⟨_, t₁, hquote, hread⟩ := Reader.bind_eq_ok.mp hread
      obtain ⟨name, t₂, hname, hread⟩ := Reader.bind_eq_ok.mp hread
      obtain ⟨draft₁, t₃, hnamed, hmore⟩ := Reader.bind_eq_ok.mp hread
      obtain ⟨blank'', rfl, hblank''⟩ := exists_mark hquote
      obtain ⟨n, rfl, hn, hspells⟩ := exists_stringBody hname
      obtain ⟨d, e, v, rfl, hd, he, hv⟩ := exists_readNamed hsound hnamed
      obtain ⟨u, ms, rfl, hu⟩ := ih hmore
      have hnames : Names n (some name) := fun s => ⟨fun hs => Option.some.inj hs ▸ hspells,
        fun hs => congrArg some (hspells.unique hs)⟩
      refine ⟨_, (some name, v) :: ms, ?_, .cons hblank (hblank'.append hblank'') hn hnames hd he hv hu⟩
      simp

theorem exists_elements {members : List (Member σ)} (hsound : ∀ m ∈ members, m.read.IsSound) {index : Nat} {draft' : σ}
    (h : s.readArray index members draft bs = .ok (draft', rest)) :
    ∃ u vs, bs = u ++ rest ∧ Elements (decide (index = 0)) u vs := by
  induction members generalizing index draft bs with
  | nil =>
    obtain ⟨_, t, hend, heq⟩ := Reader.bind_eq_ok.mp h
    cases heq
    obtain ⟨blank, rfl, hblank⟩ := exists_mark hend
    exact ⟨blank ++ [0x5D], [], by simp, .nil hblank⟩
  | cons m more ih =>
    have hsound' : ∀ m ∈ more, m.read.IsSound := fun m hm => hsound m (List.mem_cons_of_mem _ hm)
    have hnext : decide (index + 1 = 0) = false := decide_eq_false (Nat.succ_ne_zero index)
    obtain ⟨isEnd, t, hsep, hread⟩ := Reader.bind_eq_ok.mp h
    rcases exists_separate hsep with ⟨rfl, blank, t', rfl, hblank, rfl⟩ | ⟨rfl, blank, blank', rfl, hblank, hblank'⟩
    · rw [if_pos rfl] at hread
      split at hread
      · obtain ⟨u, vs, hu, hvs⟩ := ih hsound' hread
        rw [hnext] at hvs
        obtain ⟨rfl, rfl⟩ := hvs.of_closing hu.symm
        exact ⟨blank ++ [0x5D], [], by simp, .nil hblank⟩
      · cases hread
    · rw [if_neg (by decide)] at hread
      obtain ⟨f, t', hvalue, hmore⟩ := Reader.bind_eq_ok.mp hread
      obtain ⟨blank'', v, rfl, hblank'', hv⟩ := hsound m List.mem_cons_self _ _ _ hvalue
      obtain ⟨u, vs, rfl, hu⟩ := ih hsound' hmore
      rw [hnext] at hu
      refine ⟨_, v :: vs, ?_, .cons hblank (hblank'.append hblank'') hv hu⟩
      simp

theorem isObject_or_isArray (hsound : ∀ m ∈ s.members, m.read.IsSound) {d : σ} (h : (s.read draft).run bs = .ok d) :
    (∃ ms, IsObject bs ms) ∨ ∃ vs, IsArray bs vs := by
  obtain ⟨rest, hread, hrest⟩ := run_eq_ok h
  obtain ⟨o, t, hpeek, hmore⟩ := Reader.bind_eq_ok.mp hread
  split at hmore
  · obtain ⟨blank, t', rfl, hblank, rfl⟩ := exists_peek_some hpeek
    obtain ⟨_, t₁, htake, hobject⟩ := Reader.bind_eq_ok.mp hmore
    cases htake
    obtain ⟨u, ms, hu, hms⟩ := exists_members hsound hobject
    exact .inl ⟨ms, blank, u, rest, congrArg (fun t => blank ++ 0x7B :: t) hu, hblank, hms, hrest⟩
  · obtain ⟨blank, t', rfl, hblank, rfl⟩ := exists_peek_some hpeek
    obtain ⟨_, t₁, htake, harray⟩ := Reader.bind_eq_ok.mp hmore
    cases htake
    obtain ⟨u, vs, hu, hvs⟩ := exists_elements hsound harray
    exact .inr ⟨vs, blank, u, rest, congrArg (fun t => blank ++ 0x5B :: t) hu, hblank, hvs, hrest⟩
  · exact absurd hmore mismatch_ne_ok

end Shape
end Keyring.Json
