import Keyring.Proofs.Json.Skipping
import Keyring.Proofs.Json.Echo

/-!
Readers that make the same of a value wherever it stands. Main statement: what a record is read as from an object is
told by the object's members alone, one after another.
-/
set_option autoImplicit false

namespace Keyring.Json

namespace Reader

variable {α β : Type}

/-- What the reader makes of a value does not depend on what stands behind it, and blanks in front do not matter. -/
structure IsLocal (r : Reader α) : Prop where
  blank : ∀ blank bs, IsBlank blank → r (blank ++ bs) = r bs
  value : ∀ v, IsJson .value v →
    ∃ x : Except Fault α, ∀ rest, EndsNumeral rest → r (v ++ rest) = x.map fun a => (a, rest)

variable {r : Reader α} {v rest : Bytes}

theorem IsLocal.read (h : r.IsLocal) (hv : IsJson .value v) (hrest : EndsNumeral rest) :
    r (v ++ rest) = (r.run v).map fun a => (a, rest) := by
  obtain ⟨x, hx⟩ := h.value v hv
  have halone := hx [] endsNumeral_nil
  rw [List.append_nil] at halone
  rw [hx rest hrest]
  cases x with
  | error fault =>
    have hrun : r.run v = .error fault := by simp only [Reader.run, halone, Except.map]
    rw [hrun]
  | ok a =>
    have hfinish : finish [] = .ok ((), []) := rfl
    have hrun : r.run v = .ok a := by simp only [Reader.run, halone, Except.map, hfinish]
    rw [hrun]

theorem IsLocal.map (g : α → β) (h : r.IsLocal) : (g <$> r).IsLocal where
  blank blank bs hblank := by
    have hb := h.blank blank bs hblank
    simp only [Functor.map, StateT.map, hb]
  value v hv := by
    obtain ⟨x, hx⟩ := h.value v hv
    refine ⟨x.map g, fun rest hrest => ?_⟩
    cases x <;> simp [Functor.map, StateT.map, bind, Except.bind, hx rest hrest, Except.map, pure, Except.pure]

theorem isLocal_check {g : α → Reader β} {f : α → Except Fault β} (h : r.IsLocal)
    (hg : ∀ x bs, g x bs = (f x).map fun y => (y, bs)) : (r >>= g).IsLocal where
  blank blank bs hblank := by
    have hb := h.blank blank bs hblank
    simp only [bind, StateT.bind, hb]
  value v hv := by
    obtain ⟨x, hx⟩ := h.value v hv
    refine ⟨x.bind f, fun rest hrest => ?_⟩
    cases x <;> simp [bind, StateT.bind, hx rest hrest, Except.map, Except.bind, hg]

theorem bind_error {f : α → Reader β} {bs : Bytes} {fault : Fault} (h : r bs = .error fault) :
    (r >>= f) bs = .error fault := by
  simp [bind, StateT.bind, Except.bind, h]

theorem number_value {u : Bytes} (h : IsNumeral u) : ∃ x : Except Fault Number, ∀ rest, EndsNumeral rest →
    number (u ++ rest) = x.map fun n => (n, rest) := by
  obtain ⟨n, hn⟩ := numeral_append h
  cases hnumber : n.number? with
  | none =>
    refine ⟨.error .malformed, fun rest hrest => ?_⟩
    rw [number, bind_ok (hn rest hrest), hnumber]
    rfl
  | some m =>
    refine ⟨.ok m, fun rest hrest => ?_⟩
    rw [number, bind_ok (hn rest hrest), hnumber]
    rfl

/-- A reader that begins with a look at the next byte needs to be local only behind that. -/
theorem isLocal_of_peek {f : Option UInt8 → Reader α}
    (h : ∀ b t, IsJson .value (b :: t) → ∃ x : Except Fault α, ∀ rest, EndsNumeral rest →
      f (some b) (b :: (t ++ rest)) = x.map fun a => (a, rest)) : (peek >>= f).IsLocal where
  blank blank bs hblank := peek_bind_append hblank bs
  value v hv := by
    obtain ⟨b, t, rfl, hspace, -⟩ := hv.value_head
    obtain ⟨x, hx⟩ := h b t hv
    refine ⟨x, fun rest hrest => ?_⟩
    rw [List.cons_append, bind_ok (peek_cons hspace _)]
    exact hx rest hrest

theorem isLocal_mismatch (expected : String) : (mismatch expected : Reader α).IsLocal := by
  refine isLocal_of_peek fun b t hv => ?_
  cases hv with
  | nullWord => exact ⟨.error (.invalidType .null expected), fun rest _ => rfl⟩
  | trueWord => exact ⟨.error (.invalidType (.boolean true) expected), fun rest _ => rfl⟩
  | falseWord => exact ⟨.error (.invalidType (.boolean false) expected), fun rest _ => rfl⟩
  | array h => exact ⟨.error (.invalidType .sequence expected), fun rest _ => rfl⟩
  | object h => exact ⟨.error (.invalidType .map expected), fun rest _ => rfl⟩
  | string h =>
    obtain ⟨name, hname⟩ := exists_names t
    have htake (u : Bytes) : take (0x22 :: u) = .ok ((), u) := rfl
    cases name with
    | none =>
      refine ⟨.error .malformed, fun rest _ => ?_⟩
      exact (bind_ok (htake _)).trans (bind_error (stringBody_names h hname rest))
    | some s =>
      refine ⟨.error (.invalidType (.string s) expected), fun rest _ => ?_⟩
      exact (bind_ok (htake _)).trans (bind_ok (stringBody_names h hname rest))
  | numeral h =>
    obtain ⟨x, hx⟩ := number_value h
    have hother := h.not_head
    simp only [List.mem_cons, List.not_mem_nil, or_false, not_or] at hother
    simp only [hother, if_false]
    cases x with
    | error fault => exact ⟨.error fault, fun rest hrest => bind_error (hx rest hrest)⟩
    | ok n => exact ⟨.error (.invalidType (.number n) expected), fun rest hrest => bind_ok (hx rest hrest)⟩

/-- A reader that decides by the first byte is local if it is so on either side. -/
theorem isLocal_ite {b : UInt8} {p q : Reader α} (hp : ∀ t, IsJson .value (b :: t) → ∃ x : Except Fault α, ∀ rest,
    EndsNumeral rest → p (b :: (t ++ rest)) = x.map fun a => (a, rest)) (hq : q.IsLocal) :
    (do if (← peek) = some b then p else q : Reader α).IsLocal := by
  refine isLocal_of_peek fun c t hv => ?_
  by_cases hc : c = b
  · subst hc
    simp only [if_true]
    exact hp t hv
  · obtain ⟨x, hx⟩ := hq.value _ hv
    simp only [Option.some.injEq, hc, if_false]
    exact ⟨x, hx⟩

theorem isLocal_stringFor (expected : String) : (stringFor expected).IsLocal := by
  refine isLocal_ite (fun t hv => ?_) (isLocal_mismatch expected)
  obtain ⟨name, hname⟩ := exists_names t
  refine ⟨match name with | none => .error .malformed | some s => .ok s, fun rest _ => ?_⟩
  refine (bind_ok (rfl : take (0x22 :: _) = .ok ((), _))).trans ((stringBody_names hv.of_quote hname rest).trans ?_)
  cases name <;> rfl

theorem isLocal_string : string.IsLocal := isLocal_stringFor _

theorem IsLocal.nullable (h : r.IsLocal) : (nullable r).IsLocal := by
  refine isLocal_ite (fun t hv => ?_) (h.map some)
  rw [hv.of_n]
  exact ⟨.ok none, fun rest _ => rfl⟩

theorem isLocal_unit : unit.IsLocal := by
  refine isLocal_ite (fun t hv => ?_) (isLocal_mismatch _)
  rw [hv.of_n]
  exact ⟨.ok (), fun rest _ => rfl⟩

def itemsRun (r : Reader α) : List Bytes → Except Fault (List α)
  | [] => .ok []
  | v :: vs =>
    match r.run v with
    | .error fault => .error fault
    | .ok x => (itemsRun r vs).map (x :: ·)

theorem listFrom_elements (h : r.IsLocal) {isFirst : Bool} {u : Bytes} {vs : List Bytes} (hu : Elements isFirst u vs)
    {fuel : Nat} (hfuel : u.length ≤ fuel) (rest : Bytes) :
    listFrom r fuel isFirst (u ++ rest) = (r.itemsRun vs).map fun xs => (xs, rest) := by
  induction hu generalizing fuel with
  | @nil isFirst b hb =>
    obtain ⟨k, rfl⟩ : ∃ k, fuel = k + 1 := ⟨fuel - 1, by simp at hfuel; omega⟩
    rw [List.append_assoc]
    exact bind_ok (separate_blank hb (c := 0x5D) rfl isFirst rest)
  | @cons isFirst b c v u vs hb hc hv hu ih =>
    have hlong := hv.length_pos
    have hends := hu.isJson.endsNumeral_elements rest
    simp only [List.length_append] at hfuel
    obtain ⟨k, rfl⟩ : ∃ k, fuel = k + 1 := ⟨fuel - 1, by have := hu.isJson.length_pos; omega⟩
    have hread := h.read hv hends
    have hmore : listFrom r k false (u ++ rest) = _ := ih (by omega)
    obtain ⟨x, t, rfl, hspace, hx⟩ := hv.value_head
    simp only [List.mem_cons, List.not_mem_nil, or_false, not_or] at hx
    simp only [List.append_assoc, List.cons_append] at hread ⊢
    refine (bind_ok (separate_item hb hc hspace hx.1 (by decide) isFirst _)).trans ?_
    simp only [Bool.false_eq_true, if_false]
    rw [itemsRun]
    cases hrun : r.run (x :: t) with
    | error fault =>
      rw [hrun] at hread
      exact bind_error hread
    | ok a =>
      rw [hrun] at hread
      refine (bind_ok hread).trans ?_
      cases hitems : itemsRun r vs with
      | error fault =>
        rw [hitems] at hmore
        exact bind_error hmore
      | ok xs =>
        rw [hitems] at hmore
        exact bind_ok hmore

theorem IsLocal.list (h : r.IsLocal) : (list r).IsLocal := by
  refine isLocal_ite (fun t hv => ?_) (isLocal_mismatch _)
  obtain ⟨vs, hvs⟩ := hv.of_bracket.exists_elements
  refine ⟨r.itemsRun vs, fun rest _ => ?_⟩
  refine (bind_ok (rfl : take (0x5B :: _) = .ok ((), _))).trans ?_
  have hfuel : t.length ≤ (t ++ rest).length + 1 := by
    rw [List.length_append]
    omega
  exact listFrom_elements h hvs hfuel rest

theorem mark_blank_ne {x y : UInt8} {blank : Bytes} (hblank : IsBlank blank) (hy : isSpace y = false) (hne : y ≠ x)
    (t : Bytes) : mark x (blank ++ y :: t) = .error .malformed := by
  rw [mark, bind_ok (peek_blank hblank hy t), if_neg fun h => hne (Option.some.inj h)]
  rfl

theorem mark_members {u : Bytes} (hu : IsJson (.members false) u) : ∃ x : Except Fault Unit, ∀ rest,
    mark 0x7D (u ++ rest) = x.map fun a => (a, rest) := by
  cases hu with
  | objectEnd hb =>
    refine ⟨.ok (), fun rest => ?_⟩
    rw [List.append_assoc]
    exact mark_blank hb rfl rest
  | member hb =>
    refine ⟨.error .malformed, fun rest => ?_⟩
    rw [List.append_assoc]
    exact mark_blank_ne hb (y := 0x2C) rfl (by decide) _

theorem choiceNamed_value (table : List (String × α)) (name : String) : ∃ x : Except Fault α, ∀ bs,
    choiceNamed table name bs = x.map fun a => (a, bs) := by
  cases hfind : table.find? fun entry => entry.1 = name with
  | none =>
    exact ⟨.error (.unknownVariant name (table.map Prod.fst)), fun bs => by simp only [choiceNamed, hfind]; rfl⟩
  | some entry => exact ⟨.ok entry.2, fun bs => by simp only [choiceNamed, hfind]; rfl⟩

theorem choiceNamed_member (table : List (String × α)) (name : String) {d e v u : Bytes} (hd : IsBlank d)
    (he : IsBlank e) (hv : IsJson .value v) (hu : IsJson (.members false) u) : ∃ x : Except Fault α, ∀ rest,
      (do
        let a ← choiceNamed table name
        mark 0x3A
        unit
        mark 0x7D
        pure a : Reader α) (d ++ 0x3A :: (e ++ (v ++ (u ++ rest)))) = x.map fun a => (a, rest) := by
  obtain ⟨x, hx⟩ := choiceNamed_value table name
  obtain ⟨y, hy⟩ := isLocal_unit.value v hv
  obtain ⟨z, hz⟩ := mark_members hu
  refine ⟨x.bind fun a => y.bind fun _ => z.map fun _ => a, fun rest => ?_⟩
  cases x with
  | error fault => exact bind_error (hx _)
  | ok a =>
    refine (bind_ok (hx _)).trans ((bind_ok (mark_blank hd rfl _)).trans ?_)
    have hread := hy (u ++ rest) (hu.endsNumeral_members rest)
    rw [← isLocal_unit.blank e _ he] at hread
    cases y with
    | error fault => exact bind_error hread
    | ok _ =>
      refine (bind_ok hread).trans ?_
      cases z with
      | error fault => exact bind_error (hz rest)
      | ok _ => exact bind_ok (hz rest)

theorem isLocal_choice (table : List (String × α)) : (choice table).IsLocal := by
  have htake (b : UInt8) (u : Bytes) : take (b :: u) = .ok ((), u) := rfl
  refine isLocal_of_peek fun b t hv => ?_
  by_cases hquote : b = 0x22
  · subst hquote
    obtain ⟨name, hname⟩ := exists_names t
    cases name with
    | none => exact ⟨.error .malformed, fun rest _ =>
        (bind_ok (htake _ _)).trans (bind_error (stringBody_names hv.of_quote hname rest))⟩
    | some s =>
      obtain ⟨x, hx⟩ := choiceNamed_value table s
      exact ⟨x, fun rest _ =>
        (bind_ok (htake _ _)).trans ((bind_ok (stringBody_names hv.of_quote hname rest)).trans (hx rest))⟩
  by_cases hbrace : b = 0x7B
  · subst hbrace
    have hmembers := hv.of_brace
    cases hmembers with
    | objectEnd hb =>
      refine ⟨.error .malformed, fun rest _ => ?_⟩
      rw [List.append_assoc]
      exact (bind_ok (htake _ _)).trans (bind_error (mark_blank_ne hb rfl (by decide) rest))
    | @member _ b c n d e v u hb hc hn hd he hvalue hu =>
      obtain ⟨name, hname⟩ := exists_names n
      have hopen (rest : Bytes) : mark 0x22 (b ++ (comma true ++ (c ++ 0x22 :: rest))) = .ok ((), rest) := by
        rw [comma, if_pos rfl, List.nil_append, ← List.append_assoc]
        exact mark_blank (hb.append hc) rfl rest
      simp only [List.append_assoc, List.cons_append]
      cases name with
      | none => exact ⟨.error .malformed, fun rest _ => (bind_ok (htake _ _)).trans
          ((bind_ok (hopen _)).trans (bind_error (stringBody_names hn hname _)))⟩
      | some s =>
        obtain ⟨x, hx⟩ := choiceNamed_member table s hd he hvalue hu
        exact ⟨x, fun rest _ => (bind_ok (htake _ _)).trans
          ((bind_ok (hopen _)).trans ((bind_ok (stringBody_names hn hname _)).trans (hx rest)))⟩
  · refine ⟨.error .malformed, fun rest _ => ?_⟩
    generalize hb : some b = o
    split
    · exact absurd (Option.some.inj hb) hquote
    · exact absurd (Option.some.inj hb) hbrace
    · rfl

end Reader
end Keyring.Json
