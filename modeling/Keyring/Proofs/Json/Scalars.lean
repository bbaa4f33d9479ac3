import Keyring.Proofs.Json.Grammar

set_option autoImplicit false

namespace Keyring.Json

open Reader

section strings

variable {bs ds u v rest bytes : Bytes} {n : Nat}

theorem StringSpells.tail (h : StringSpells u bytes) : StringTail u := by
  induction h with
  | close => exact .close
  | plain hb _ ih => exact .plain hb ih
  | escape hb _ ih => exact .escape (by rw [hb]; rfl) ih
  | unit hd _ _ ih => exact .unit hd ih
  | pair hd _ he _ _ _ ih => exact .unit hd (.unit he ih)

theorem skipStringFrom_hexWord (h : HexWord ds n) (rest : Bytes) :
    skipStringFrom (.digits 0 0 none) (ds ++ rest) = skipStringFrom .plain rest := by
  obtain ⟨ha, hb, hc, hd⟩ := h
  simp [skipStringFrom, ha, hb, hc, hd]

theorem stringFrom_hexWord (h : HexWord ds n) (high : Option Nat) (rest : Bytes) :
    stringFrom (.digits 0 0 high) (ds ++ rest) = match unit? n high with
      | none => .error .malformed
      | some (bytes, stage) => (stringFrom stage rest).map fun r => (bytes ++ r.1, r.2) := by
  obtain ⟨ha, hb, hc, hd⟩ := h
  simp only [List.cons_append, List.nil_append, stringFrom, ha, hb, hc, hd, Nat.zero_mul, Nat.zero_add]
  cases unit? _ high <;> rfl

theorem hexWord_or_error (bs : Bytes) : (∃ ds n t, bs = ds ++ t ∧ HexWord ds n) ∨
    (∀ high, stringFrom (.digits 0 0 high) bs = .error .malformed) ∧
      skipStringFrom (.digits 0 0 none) bs = .error .malformed := by
  rcases bs with - | ⟨a, bs⟩
  · exact .inr ⟨fun _ => rfl, rfl⟩
  cases ha : hexDigit? a with
  | none => exact .inr (by simp [stringFrom, skipStringFrom, ha])
  | some i =>
  rcases bs with - | ⟨b, bs⟩
  · exact .inr (by simp [stringFrom, skipStringFrom, ha])
  cases hb : hexDigit? b with
  | none => exact .inr (by simp [stringFrom, skipStringFrom, ha, hb])
  | some j =>
  rcases bs with - | ⟨c, bs⟩
  · exact .inr (by simp [stringFrom, skipStringFrom, ha, hb])
  cases hc : hexDigit? c with
  | none => exact .inr (by simp [stringFrom, skipStringFrom, ha, hb, hc])
  | some k =>
  rcases bs with - | ⟨d, t⟩
  · exact .inr (by simp [stringFrom, skipStringFrom, ha, hb, hc])
  cases hd : hexDigit? d with
  | none => exact .inr (by simp [stringFrom, skipStringFrom, ha, hb, hc, hd])
  | some l => exact .inl ⟨[a, b, c, d], _, t, rfl, .mk ha hb hc hd⟩

section steps

variable {b c : UInt8}

theorem skipStringFrom_plainByte (hb : IsPlainByte b) (t : Bytes) :
    skipStringFrom .plain (b :: t) = skipStringFrom .plain t := by
  simp [skipStringFrom, hb.1, hb.2.1, hb.2.2]

theorem stringFrom_plainByte (hb : IsPlainByte b) (t : Bytes) :
    stringFrom .plain (b :: t) = (stringFrom .plain t).map fun r => (b :: r.1, r.2) := by
  simp [stringFrom, hb.1, hb.2.1, hb.2.2]

theorem ne_of_unescape? (hb : unescape? b = some c) : b ≠ 0x75 := by
  rintro rfl
  cases hb

theorem skipStringFrom_escape (hb : unescape? b = some c) (t : Bytes) :
    skipStringFrom .plain (0x5C :: b :: t) = skipStringFrom .plain t := by
  simp [skipStringFrom, ne_of_unescape? hb, hb]

theorem stringFrom_escape (hb : unescape? b = some c) (t : Bytes) :
    stringFrom .plain (0x5C :: b :: t) = (stringFrom .plain t).map fun r => (c :: r.1, r.2) := by
  simp [stringFrom, ne_of_unescape? hb, hb]

theorem skipStringFrom_unit (h : HexWord ds n) (t : Bytes) :
    skipStringFrom .plain (0x5C :: 0x75 :: (ds ++ t)) = skipStringFrom .plain t := by
  exact skipStringFrom_hexWord h t

theorem stringFrom_unit (h : HexWord ds n) (t : Bytes) :
    stringFrom .plain (0x5C :: 0x75 :: (ds ++ t)) = match unit? n none with
      | none => .error .malformed
      | some (bytes, stage) => (stringFrom stage t).map fun r => (bytes ++ r.1, r.2) := by
  exact stringFrom_hexWord h none t

/-- How a string may go on, and that both readers fail where it goes on in no such way. -/
theorem tail_cases (bs : Bytes) : (∃ t, bs = 0x22 :: t) ∨ (∃ b t, bs = b :: t ∧ IsPlainByte b) ∨
    (∃ b c t, bs = 0x5C :: b :: t ∧ unescape? b = some c) ∨
    (∃ ds n t, bs = 0x5C :: 0x75 :: (ds ++ t) ∧ HexWord ds n) ∨
    (stringFrom .plain bs = .error .malformed ∧ skipStringFrom .plain bs = .error .malformed) := by
  match bs with
  | [] => exact .inr (.inr (.inr (.inr ⟨rfl, rfl⟩)))
  | b :: t =>
    by_cases hquote : b = 0x22
    · exact .inl ⟨t, by rw [hquote]⟩
    by_cases hslash : b = 0x5C
    · subst hslash
      match t with
      | [] => exact .inr (.inr (.inr (.inr ⟨rfl, rfl⟩)))
      | c :: t =>
        by_cases hu : c = 0x75
        · subst hu
          rcases hexWord_or_error t with ⟨ds, n, t, rfl, hd⟩ | ⟨herror, herror'⟩
          · exact .inr (.inr (.inr (.inl ⟨ds, n, t, rfl, hd⟩)))
          · exact .inr (.inr (.inr (.inr (by simp [stringFrom, skipStringFrom, herror, herror']))))
        · cases hc : unescape? c with
          | none => exact .inr (.inr (.inr (.inr (by simp [stringFrom, skipStringFrom, hu, hc]))))
          | some d => exact .inr (.inr (.inl ⟨c, d, t, rfl, hc⟩))
    · by_cases hlow : b < 0x20
      · exact .inr (.inr (.inr (.inr (by simp [stringFrom, skipStringFrom, hquote, hslash, hlow]))))
      · exact .inr (.inl ⟨b, t, rfl, hquote, hslash, hlow⟩)

end steps

/-- Passing over a string takes just what the grammar calls the rest of a string. -/
theorem skipStringFrom_tail (h : StringTail u) (rest : Bytes) : skipStringFrom .plain (u ++ rest) = .ok rest := by
  induction h with
  | close => rfl
  | plain hb _ ih => rw [List.cons_append, skipStringFrom_plainByte hb, ih]
  | escape hb _ ih =>
    obtain ⟨c, hc⟩ := Option.isSome_iff_exists.mp hb
    rw [List.cons_append, List.cons_append, skipStringFrom_escape hc, ih]
  | unit hd _ ih => rw [List.cons_append, List.cons_append, List.append_assoc, skipStringFrom_unit hd, ih]

theorem exists_tail (h : skipStringFrom .plain bs = .ok rest) : ∃ u, bs = u ++ rest ∧ StringTail u := by
  induction hlength : bs.length using Nat.strongRecOn generalizing bs with
  | ind k ih =>
    subst hlength
    rcases tail_cases bs with ⟨t, rfl⟩ | ⟨b, t, rfl, hb⟩ | ⟨b, c, t, rfl, hb⟩ | ⟨ds, n, t, rfl, hd⟩ | ⟨-, herror⟩
    · cases h
      exact ⟨[0x22], rfl, .close⟩
    · rw [skipStringFrom_plainByte hb] at h
      obtain ⟨u, rfl, hu⟩ := ih _ (by simp) h rfl
      exact ⟨b :: u, rfl, .plain hb hu⟩
    · rw [skipStringFrom_escape hb] at h
      obtain ⟨u, rfl, hu⟩ := ih _ (by simp only [List.length_cons]; omega) h rfl
      exact ⟨0x5C :: b :: u, rfl, .escape (by rw [hb]; rfl) hu⟩
    · rw [skipStringFrom_unit hd] at h
      obtain ⟨u, rfl, hu⟩ := ih _ (by simp only [List.length_cons, List.length_append]; omega) h rfl
      exact ⟨0x5C :: 0x75 :: (ds ++ u), by simp, .unit hd hu⟩
    · rw [herror] at h
      cases h

theorem StringTail.eq_of_append_eq {u' rest' : Bytes} (h : StringTail u) (h' : StringTail u')
    (heq : u ++ rest = u' ++ rest') : u = u' ∧ rest = rest' := by
  have hrest := skipStringFrom_tail h rest
  rw [heq, skipStringFrom_tail h' rest'] at hrest
  cases hrest
  exact ⟨List.append_cancel_right heq, rfl⟩

theorem unit?_high (h : IsHigh n) : unit? n none = some ([], .backslash n) := if_pos h

theorem unit?_char {c : Char} (hc : Utf8.char? n = some c) : unit? n none = some (Utf8.encodeChar c, .plain) := by
  have hvalid : n.isValidChar := by
    unfold Utf8.char? at hc
    split at hc
    · assumption
    · cases hc
  unfold Nat.isValidChar at hvalid
  rw [unit?, if_neg (by omega), hc]
  rfl

theorem unit?_none (h : ¬ IsHigh n) (hc : Utf8.char? n = none) : unit? n none = none := by
  unfold IsHigh at h
  rw [unit?, if_neg h, hc]
  rfl

theorem unit?_low {high : Nat} (h : IsLow n) :
    unit? n (some high) = (Utf8.char? (pairValue high n)).map fun c => (Utf8.encodeChar c, .plain) := if_pos h

theorem stringFrom_spells (h : StringSpells u bytes) (rest : Bytes) :
    stringFrom .plain (u ++ rest) = .ok (bytes, rest) := by
  induction h with
  | close => rfl
  | plain hb _ ih =>
    rw [List.cons_append, stringFrom_plainByte hb, ih]
    rfl
  | escape hb _ ih =>
    rw [List.cons_append, List.cons_append, stringFrom_escape hb, ih]
    rfl
  | unit hd hc _ ih =>
    rw [List.cons_append, List.cons_append, List.append_assoc, stringFrom_unit hd, unit?_char hc]
    simp only [ih]
    rfl
  | @pair ds es u s high low c hd hhigh he hlow hc _ ih =>
    have hback (t : Bytes) :
        stringFrom (.backslash high) (0x5C :: 0x75 :: t) = stringFrom (.digits 0 0 (some high)) t := rfl
    simp only [List.cons_append, List.append_assoc]
    rw [stringFrom_unit hd, unit?_high hhigh]
    simp only [hback]
    rw [stringFrom_hexWord he, unit?_low hlow, hc]
    simp only [Option.map_some, ih]
    rfl

theorem map_bytes_eq_ok {x : Except Fault (Bytes × Bytes)} {g : Bytes → Bytes}
    (h : x.map (fun r => (g r.1, r.2)) = .ok (bytes, rest)) : ∃ s, x = .ok (s, rest) ∧ bytes = g s := by
  cases x with
  | error fault => cases h
  | ok r =>
    cases h
    exact ⟨r.1, rfl, rfl⟩

theorem exists_low {high : Nat} (h : stringFrom (.backslash high) bs = .ok (bytes, rest)) :
    ∃ es low t c s, bs = 0x5C :: 0x75 :: (es ++ t) ∧ HexWord es low ∧ IsLow low ∧
      Utf8.char? (pairValue high low) = some c ∧ bytes = Utf8.encodeChar c ++ s ∧
      stringFrom .plain t = .ok (s, rest) := by
  match bs with
  | [] => cases h
  | [b] =>
    rw [stringFrom] at h
    split at h <;> cases h
  | b :: b' :: t =>
    rw [stringFrom] at h
    split at h
    swap
    · cases h
    rw [stringFrom] at h
    split at h
    swap
    · cases h
    subst_vars
    rcases hexWord_or_error t with ⟨es, low, t, rfl, he⟩ | ⟨herror, -⟩
    swap
    · rw [herror] at h
      cases h
    rw [stringFrom_hexWord he] at h
    by_cases hlow : IsLow low
    · rw [unit?_low hlow] at h
      cases hc : Utf8.char? (pairValue high low) with
      | none =>
        rw [hc] at h
        cases h
      | some c =>
        rw [hc] at h
        obtain ⟨s, hmore, rfl⟩ := map_bytes_eq_ok h
        exact ⟨es, low, t, c, s, rfl, he, hlow, hc, rfl, hmore⟩
    · unfold IsLow at hlow
      rw [unit?, if_neg hlow] at h
      cases h

theorem exists_spells (h : stringFrom .plain bs = .ok (bytes, rest)) : ∃ u, bs = u ++ rest ∧ StringSpells u bytes := by
  induction hlength : bs.length using Nat.strongRecOn generalizing bs bytes with
  | ind k ih =>
    subst hlength
    rcases tail_cases bs with ⟨t, rfl⟩ | ⟨b, t, rfl, hb⟩ | ⟨b, c, t, rfl, hb⟩ | ⟨ds, n, t, rfl, hd⟩ | ⟨herror, -⟩
    · cases h
      exact ⟨[0x22], rfl, .close⟩
    · rw [stringFrom_plainByte hb] at h
      obtain ⟨s, hmore, rfl⟩ := map_bytes_eq_ok h
      obtain ⟨u, rfl, hu⟩ := ih _ (by simp) hmore rfl
      exact ⟨b :: u, rfl, .plain hb hu⟩
    · rw [stringFrom_escape hb] at h
      obtain ⟨s, hmore, rfl⟩ := map_bytes_eq_ok h
      obtain ⟨u, rfl, hu⟩ := ih _ (by simp only [List.length_cons]; omega) hmore rfl
      exact ⟨0x5C :: b :: u, rfl, .escape hb hu⟩
    · rw [stringFrom_unit hd] at h
      by_cases hhigh : IsHigh n
      · rw [unit?_high hhigh] at h
        obtain ⟨s, hmore, rfl⟩ := map_bytes_eq_ok h
        obtain ⟨es, low, t, c, s, rfl, he, hlow, hc, rfl, hlast⟩ := exists_low hmore
        obtain ⟨u, rfl, hu⟩ := ih _ (by simp only [List.length_cons, List.length_append]; omega) hlast rfl
        exact ⟨_, by simp, .pair hd hhigh he hlow hc hu⟩
      · cases hc : Utf8.char? n with
        | none =>
          rw [unit?_none hhigh hc] at h
          cases h
        | some c =>
          rw [unit?_char hc] at h
          obtain ⟨s, hmore, rfl⟩ := map_bytes_eq_ok h
          obtain ⟨u, rfl, hu⟩ := ih _ (by simp only [List.length_cons, List.length_append]; omega) hmore rfl
          exact ⟨0x5C :: 0x75 :: (ds ++ u), by simp, .unit hd hc hu⟩
    · rw [herror] at h
      cases h

theorem stringFrom_error {stage : Stage} {fault : Fault} (h : stringFrom stage bs = .error fault) :
    fault = .malformed := by
  induction bs generalizing stage with
  | nil => cases stage <;> cases h <;> rfl
  | cons b bs ih =>
    have hmap {stage : Stage} {g : Bytes → Bytes}
        (h : (stringFrom stage bs).map (fun r => (g r.1, r.2)) = .error fault) : fault = .malformed := by
      cases hstage : stringFrom stage bs with
      | error fault' =>
        rw [hstage] at h
        cases h
        exact ih hstage
      | ok r =>
        rw [hstage] at h
        cases h
    cases stage <;> rw [stringFrom] at h <;> repeat' split at h
    all_goals first | exact ih h | exact hmap h | (cases h; rfl) | cases h

theorem StringTail.Spells.unique {s s' : String} (h : StringTail.Spells u s) (h' : StringTail.Spells u s') :
    s = s' := by
  obtain ⟨bytes, hu, hs⟩ := h
  obtain ⟨bytes', hu', hs'⟩ := h'
  have hbytes := stringFrom_spells hu []
  rw [stringFrom_spells hu' []] at hbytes
  cases hbytes
  exact Option.some.inj (hs.symm.trans hs')

theorem exists_names (u : Bytes) : ∃ name, Names u name := by
  by_cases h : ∃ s, StringTail.Spells u s
  · obtain ⟨s, hs⟩ := h
    refine ⟨some s, fun s' => ⟨fun heq => ?_, fun hs' => congrArg some (hs.unique hs')⟩⟩
    cases heq
    exact hs
  · exact ⟨none, fun s => ⟨nofun, fun hs => absurd ⟨s, hs⟩ h⟩⟩

theorem Reader.stringBody_spells {s : String} (h : StringTail.Spells u s) (rest : Bytes) :
    stringBody (u ++ rest) = .ok (s, rest) := by
  obtain ⟨bytes, hu, hs⟩ := h
  simp only [stringBody, stringFrom_spells hu, hs]

theorem Reader.exists_stringBody {s : String} (h : stringBody bs = .ok (s, rest)) :
    ∃ u, bs = u ++ rest ∧ StringTail u ∧ StringTail.Spells u s := by
  unfold stringBody at h
  split at h
  · cases h
  · rename_i bytes rest' hbytes
    obtain ⟨u, rfl, hu⟩ := exists_spells hbytes
    split at h
    · cases h
    · rename_i s' hs
      cases h
      exact ⟨u, rfl, hu.tail, bytes, hu, hs⟩

/-- A string is read as what it spells, and as malformed if it spells nothing, whatever follows. -/
theorem Reader.stringBody_names {name : Option String} (hu : StringTail u) (hname : Names u name) (rest : Bytes) :
    stringBody (u ++ rest) = match name with
      | none => .error .malformed
      | some s => .ok (s, rest) := by
  cases name with
  | some s => exact stringBody_spells ((hname s).mp rfl) rest
  | none =>
    cases h : stringBody (u ++ rest) with
    | error fault =>
      unfold stringBody at h
      split at h
      · rename_i hfault
        rw [stringFrom_error hfault] at h
        exact h.symm
      · split at h <;> cases h
        rfl
    | ok r =>
      obtain ⟨u', heq, hu', hs⟩ := exists_stringBody h
      rw [(hu.eq_of_append_eq hu' heq).1] at hname
      cases (hname r.1).mpr hs

theorem tail_of_skip (h : skipStringFrom .plain u = .ok []) : StringTail u := by
  obtain ⟨w, hw, htail⟩ := exists_tail h
  rwa [hw, List.append_nil]

theorem names_of_body {s : String} (h : stringBody u = .ok (s, [])) : Names u (some s) := by
  obtain ⟨w, hw, -, hspells⟩ := Reader.exists_stringBody h
  rw [List.append_nil] at hw
  subst hw
  exact fun s' => ⟨fun hs => Option.some.inj hs ▸ hspells, fun hs => congrArg some (hspells.unique hs)⟩

theorem Reader.skipStringBody_tail (hu : StringTail u) (rest : Bytes) :
    skipStringBody (u ++ rest) = .ok ((), rest) := by
  simp only [skipStringBody, skipStringFrom_tail hu]

theorem Reader.exists_skipStringBody (h : skipStringBody bs = .ok ((), rest)) :
    ∃ u, bs = u ++ rest ∧ StringTail u := by
  unfold skipStringBody at h
  split at h
  · cases h
  · rename_i hrest
    cases h
    exact exists_tail hrest

end strings

section numerals

variable {bs ds u fraction exponent rest : Bytes}

theorem digitRun_append (h : ∀ b ∈ ds, (digit? b).isSome = true) (hrest : ∀ b, rest.head? = some b → digit? b = none) :
    digitRun (ds ++ rest) = (ds.filterMap digit?, rest) := by
  induction ds with
  | nil =>
    cases rest with
    | nil => rfl
    | cons b rest => simp [digitRun, hrest b rfl]
  | cons b ds ih =>
    obtain ⟨d, hd⟩ := Option.isSome_iff_exists.mp (h b List.mem_cons_self)
    simp [digitRun, hd, ih fun c hc => h c (List.mem_cons_of_mem b hc)]

theorem exists_digitRun (bs : Bytes) : ∃ ds, bs = ds ++ (digitRun bs).2 ∧ (∀ b ∈ ds, (digit? b).isSome = true) ∧
    (digitRun bs).1 = ds.filterMap digit? := by
  induction bs with
  | nil => exact ⟨[], rfl, nofun, rfl⟩
  | cons b bs ih =>
    cases hb : digit? b with
    | none => exact ⟨[], by simp [digitRun, hb], nofun, by simp [digitRun, hb]⟩
    | some d =>
      obtain ⟨ds, hbs, hds, hrun⟩ := ih
      refine ⟨b :: ds, by simp [digitRun, hb, ← hbs], fun c hc => ?_, by simp [digitRun, hb, hrun]⟩
      rcases List.mem_cons.mp hc with rfl | hc
      · rw [hb]
        rfl
      · exact hds c hc

namespace Reader

theorem digits_append (h : IsDigits ds) (hrest : ∀ b, rest.head? = some b → digit? b = none) :
    digits (ds ++ rest) = .ok (ds.filterMap digit?, rest) := by
  obtain ⟨b, t, rfl, hb⟩ := h.head
  obtain ⟨d, hd⟩ := Option.isSome_iff_exists.mp hb
  rw [digits, digitRun_append h.2 hrest]
  simp [hd]

theorem exists_digits {ns : List Nat} (h : digits bs = .ok (ns, rest)) :
    ∃ ds, bs = ds ++ rest ∧ IsDigits ds ∧ ns = ds.filterMap digit? := by
  obtain ⟨ds, hbs, hds, hrun⟩ := exists_digitRun bs
  unfold digits at h
  split at h
  · cases h
  · rename_i ns' rest' hne hpair
    cases h
    rw [hpair] at hbs hrun
    refine ⟨ds, hbs, ⟨?_, hds⟩, hrun⟩
    rintro rfl
    exact hne hrun

theorem optional_cons {accepted : Bytes} {b : UInt8} (h : b ∈ accepted) (rest : Bytes) :
    optional accepted (b :: rest) = .ok (some b, rest) := by
  simp [optional, h]

theorem optional_cases {accepted : Bytes} {o : Option UInt8} (h : optional accepted bs = .ok (o, rest)) :
    (o = none ∧ bs = rest) ∨ ∃ b ∈ accepted, o = some b ∧ bs = b :: rest := by
  cases bs with
  | nil =>
    cases h
    exact .inl ⟨rfl, rfl⟩
  | cons b t =>
    rw [optional] at h
    split at h
    · rename_i hb
      cases h
      exact .inr ⟨b, List.contains_iff_mem.mp hb, rfl, rfl⟩
    · cases h
      exact .inl ⟨rfl, rfl⟩

def fractionPart : Reader (Option (List Nat)) := do
  let point ← optional [0x2E]
  if point.isSome then some <$> digits else pure none

def exponentPart : Reader (Option (Bool × List Nat)) := do
  let exponentMark ← optional [0x65, 0x45]
  if exponentMark.isSome then do
    let sign ← optional [0x2B, 0x2D]
    let ds ← digits
    pure (some (sign == some 0x2D, ds))
  else pure none

theorem numeral_eq : numeral = (do
    let minus ← optional [0x2D]
    let whole ← digits
    if 1 < whole.length && whole.head? = some 0 then fail .malformed else do
      let fraction ← fractionPart
      let exponent ← exponentPart
      pure ⟨minus.isSome, whole, fraction, exponent⟩) := by
  have hite {α β : Type} (c : Prop) [Decidable c] (x y : Reader α) (f : α → Reader β) :
      (if c then x else y) >>= f = if c then x >>= f else y >>= f := by split <;> rfl
  simp only [numeral, fractionPart, exponentPart, bind_assoc, hite, pure_bind]
  rfl

theorem fractionPart_append (h : IsFraction fraction) : ∃ x, ∀ rest,
    (∀ b, rest.head? = some b → digit? b = none ∧ b ≠ 0x2E) → fractionPart (fraction ++ rest) = .ok (x, rest) := by
  rcases h with rfl | ⟨ds, hds, rfl⟩
  · refine ⟨none, fun rest hrest => ?_⟩
    rw [List.nil_append, fractionPart, bind_ok (optional_skip fun b hb => by simp [(hrest b hb).2])]
    rfl
  · refine ⟨some (ds.filterMap digit?), fun rest hrest => ?_⟩
    rw [List.cons_append, fractionPart, bind_ok (optional_cons (by decide) _)]
    exact map_ok some (digits_append hds fun b hb => (hrest b hb).1)

theorem exists_fraction {x : Option (List Nat)} (h : fractionPart bs = .ok (x, rest)) :
    ∃ u, bs = u ++ rest ∧ IsFraction u := by
  obtain ⟨point, t, hpoint, hmore⟩ := bind_eq_ok.mp h
  rcases optional_cases hpoint with ⟨rfl, rfl⟩ | ⟨b, hb, rfl, rfl⟩
  · cases hmore
    exact ⟨[], rfl, .inl rfl⟩
  · obtain ⟨ns, rest', hdigits, heq⟩ := map_eq_ok.mp hmore
    cases heq
    obtain ⟨ds, rfl, hds, -⟩ := exists_digits hdigits
    rw [List.mem_singleton.mp hb]
    exact ⟨0x2E :: ds, rfl, .inr ⟨ds, hds, rfl⟩⟩

theorem exponentPart_append (h : IsExponent exponent) : ∃ x, ∀ rest, EndsNumeral rest →
    exponentPart (exponent ++ rest) = .ok (x, rest) := by
  rcases h with rfl | ⟨mark, sign, ds, hmark, hsign, hds, rfl⟩
  · refine ⟨none, fun rest hrest => ?_⟩
    rw [List.nil_append, exponentPart, bind_ok (optional_skip fun b hb => by simp [(hrest b hb).2.2])]
    rfl
  · obtain ⟨o, ho⟩ : ∃ o, ∀ t, optional [0x2B, 0x2D] (sign ++ (ds ++ t)) = .ok (o, ds ++ t) := by
      simp only [List.mem_cons, List.not_mem_nil, or_false] at hsign
      rcases hsign with rfl | rfl | rfl
      · obtain ⟨b, u, rfl, hb⟩ := hds.head
        refine ⟨none, fun t => optional_skip fun c hc => ?_⟩
        cases hc
        rw [← Bool.not_eq_true, List.contains_iff_mem]
        intro hmem
        simp only [List.mem_cons, List.not_mem_nil, or_false] at hmem
        rcases hmem with rfl | rfl <;> cases hb
      · exact ⟨_, fun t => rfl⟩
      · exact ⟨_, fun t => rfl⟩
    refine ⟨some (o == some 0x2D, ds.filterMap digit?), fun rest hrest => ?_⟩
    rw [List.cons_append, List.append_assoc, exponentPart, bind_ok (optional_cons hmark _)]
    simp only [Option.isSome_some, if_true]
    rw [bind_ok (ho rest), bind_ok (digits_append hds fun b hb => (hrest b hb).1)]
    rfl

theorem exists_exponent {x : Option (Bool × List Nat)} (h : exponentPart bs = .ok (x, rest)) :
    ∃ u, bs = u ++ rest ∧ IsExponent u := by
  obtain ⟨mark, t, hmark, hmore⟩ := bind_eq_ok.mp h
  rcases optional_cases hmark with ⟨rfl, rfl⟩ | ⟨b, hb, rfl, rfl⟩
  · cases hmore
    exact ⟨[], rfl, .inl rfl⟩
  · obtain ⟨sign, t', hsign, hmore⟩ := bind_eq_ok.mp hmore
    obtain ⟨ns, rest', hdigits, heq⟩ := bind_eq_ok.mp hmore
    cases heq
    obtain ⟨ds, rfl, hds, -⟩ := exists_digits hdigits
    rcases optional_cases hsign with ⟨-, rfl⟩ | ⟨c, hc, -, rfl⟩
    · exact ⟨b :: ([] ++ ds), rfl, .inr ⟨b, [], ds, hb, by decide, hds, rfl⟩⟩
    · refine ⟨b :: ([c] ++ ds), rfl, .inr ⟨b, [c], ds, hb, ?_, hds, rfl⟩⟩
      simp only [List.mem_cons, List.not_mem_nil, or_false] at hc
      rcases hc with rfl | rfl <;> decide

theorem digit?_eq_zero {b : UInt8} : digit? b = some 0 ↔ b = 0x30 := by
  refine ⟨fun h => ?_, fun h => h ▸ rfl⟩
  unfold digit? at h
  split at h
  · exact UInt8.toNat.inj (by have := Option.some.inj h; simp only [UInt8.reduceToNat]; omega)
  · cases h

theorem lead_iff (h : IsDigits ds) :
    (1 < (ds.filterMap digit?).length && (ds.filterMap digit?).head? = some 0) = true ↔
      1 < ds.length ∧ ds.head? = some 0x30 := by
  have hlength : (ds.filterMap digit?).length = ds.length := by
    rw [List.length_filterMap_eq_countP, List.countP_eq_length.mpr h.2]
  obtain ⟨b, t, rfl, hb⟩ := h.head
  obtain ⟨d, hd⟩ := Option.isSome_iff_exists.mp hb
  have hhead : ((b :: t).filterMap digit?).head? = digit? b := by simp [hd]
  rw [hlength, hhead, Bool.and_eq_true, decide_eq_true_eq, decide_eq_true_eq, digit?_eq_zero]
  simp

theorem exists_numeral {n : Numeral} (h : numeral bs = .ok (n, rest)) : ∃ u, bs = u ++ rest ∧ IsNumeral u := by
  rw [numeral_eq] at h
  obtain ⟨minus, bs₁, hminus, h⟩ := bind_eq_ok.mp h
  obtain ⟨whole, bs₂, hwhole, h⟩ := bind_eq_ok.mp h
  split at h
  · cases h
  rename_i hlead
  obtain ⟨x, bs₃, hpart, h⟩ := bind_eq_ok.mp h
  obtain ⟨y, bs₄, hpart', heq⟩ := bind_eq_ok.mp h
  cases heq
  obtain ⟨ds, hbs, hds, rfl⟩ := exists_digits hwhole
  obtain ⟨fraction, rfl, hfraction⟩ := exists_fraction hpart
  obtain ⟨exponent, rfl, hexponent⟩ := exists_exponent hpart'
  have hlead : 1 < ds.length → ds.head? ≠ some 0x30 := fun hlong hzero => hlead ((lead_iff hds).mpr ⟨hlong, hzero⟩)
  rcases optional_cases hminus with ⟨-, rfl⟩ | ⟨b, hb, -, rfl⟩
  · exact ⟨[] ++ (ds ++ (fraction ++ exponent)), by rw [hbs]; simp, .mk (by decide) hds hlead hfraction hexponent⟩
  · rw [List.mem_singleton.mp hb, hbs]
    exact ⟨[0x2D] ++ (ds ++ (fraction ++ exponent)), by simp, .mk (by decide) hds hlead hfraction hexponent⟩

/-- A numeral by the grammar is read, with a result that does not depend on what follows. -/
theorem numeral_append (h : IsNumeral u) : ∃ n, ∀ rest, EndsNumeral rest → numeral (u ++ rest) = .ok (n, rest) := by
  obtain ⟨hsign, hwhole, hlead, hfraction, hexponent⟩ := h
  rename_i sign whole fraction exponent
  obtain ⟨x, hx⟩ := fractionPart_append hfraction
  obtain ⟨y, hy⟩ := exponentPart_append hexponent
  obtain ⟨minus, hminus⟩ : ∃ o, ∀ t, optional [0x2D] (sign ++ (whole ++ t)) = .ok (o, whole ++ t) := by
    simp only [List.mem_cons, List.not_mem_nil, or_false] at hsign
    rcases hsign with rfl | rfl
    · obtain ⟨b, u, rfl, hb⟩ := hwhole.head
      refine ⟨none, fun t => optional_skip fun c hc => ?_⟩
      cases hc
      rw [← Bool.not_eq_true, List.contains_iff_mem, List.mem_singleton]
      rintro rfl
      cases hb
    · exact ⟨_, fun t => rfl⟩
  refine ⟨⟨minus.isSome, whole.filterMap digit?, x, y⟩, fun rest hrest => ?_⟩
  -- no digit and no point stands where the fraction has ended, and no digit where the whole number has
  have hends : ∀ b, (exponent ++ rest).head? = some b → digit? b = none ∧ b ≠ 0x2E := by
    rcases hexponent with rfl | ⟨mark, sign, ds, hmark, -, -, rfl⟩
    · exact fun b hb => ⟨(hrest b hb).1, (hrest b hb).2.1⟩
    · intro b hb
      cases hb
      simp only [List.mem_cons, List.not_mem_nil, or_false] at hmark
      rcases hmark with rfl | rfl <;> decide
  have hends' : ∀ b, (fraction ++ (exponent ++ rest)).head? = some b → digit? b = none := by
    rcases hfraction with rfl | ⟨ds, -, rfl⟩
    · exact fun b hb => (hends b hb).1
    · intro b hb
      cases hb
      rfl
  have hlead : ¬ (1 < (whole.filterMap digit?).length && (whole.filterMap digit?).head? = some 0) = true :=
    fun h => ((lead_iff hwhole).mp h).elim hlead
  simp only [List.append_assoc]
  rw [numeral_eq, bind_ok (hminus _), bind_ok (digits_append hwhole hends')]
  rw [if_neg hlead, bind_ok (hx _ hends), bind_ok (hy _ hrest)]
  rfl

end Reader
end numerals
end Keyring.Json
