import Keyring.Json.Value
import Keyring.Proofs.Text.Utf8
import Mathlib.Data.List.Basic

set_option autoImplicit false

namespace Keyring.Utf8

theorem encodeChar_ascii {c : Char} (h : c.toNat < 0x80) : encodeChar c = [UInt8.ofNat c.toNat] := by
  rw [encodeChar, units, if_pos h, List.map_singleton]

theorem le_of_mem_encodeChar {c : Char} (h : ¬ c.toNat < 0x80) {b : UInt8} (hb : b ∈ encodeChar c) :
    0x80 ≤ b.toNat := by
  have hlt := toNat_lt c
  unfold encodeChar units at hb
  rw [if_neg h] at hb
  split at hb
  · simp only [List.map_cons, List.map_nil, List.mem_cons, List.not_mem_nil, or_false] at hb
    rcases hb with rfl | rfl <;> rw [toNat_ofNat_lt _ (by omega)] <;> omega
  split at hb
  · simp only [List.map_cons, List.map_nil, List.mem_cons, List.not_mem_nil, or_false] at hb
    rcases hb with rfl | rfl | rfl <;> rw [toNat_ofNat_lt _ (by omega)] <;> omega
  · simp only [List.map_cons, List.map_nil, List.mem_cons, List.not_mem_nil, or_false] at hb
    rcases hb with rfl | rfl | rfl | rfl <;> rw [toNat_ofNat_lt _ (by omega)] <;> omega

end Keyring.Utf8

namespace Keyring.Json

namespace Reader

variable {α β : Type} {r : Reader α} {f : α → Reader β} {bs rest : Bytes} {x : α}

@[simp] theorem pure_apply (x : α) (bs : Bytes) : (pure x : Reader α) bs = .ok (x, bs) := rfl

theorem bind_ok (h : r bs = .ok (x, rest)) : (r >>= f) bs = f x rest := by
  simp [bind, StateT.bind, Except.bind, h]

theorem map_ok (g : α → β) (h : r bs = .ok (x, rest)) : (g <$> r) bs = .ok (g x, rest) := by
  simp [Functor.map, StateT.map, bind, Except.bind, h, pure, Except.pure]

theorem bind_eq_ok {y : β × Bytes} :
    (r >>= f) bs = .ok y ↔ ∃ x rest, r bs = .ok (x, rest) ∧ f x rest = .ok y := by
  cases h : r bs with
  | error fault => simp [bind, StateT.bind, Except.bind, h]
  | ok p =>
    obtain ⟨x, rest⟩ := p
    simp [bind_ok h]

theorem map_eq_ok {g : α → β} {y : β × Bytes} :
    (g <$> r) bs = .ok y ↔ ∃ x rest, r bs = .ok (x, rest) ∧ (g x, rest) = y := by
  cases h : r bs with
  | error fault => simp [Functor.map, StateT.map, bind, Except.bind, h]
  | ok p =>
    obtain ⟨x, rest⟩ := p
    simp [map_ok g h]

theorem peek_cons {b : UInt8} (h : isSpace b = false) (bs : Bytes) :
    peek (b :: bs) = .ok (some b, b :: bs) := by
  simp [peek, List.dropWhile, h]

theorem mark_cons {b : UInt8} (h : isSpace b = false) (bs : Bytes) : mark b (b :: bs) = .ok ((), bs) := by
  rw [mark, bind_ok (peek_cons h bs)]
  simp [take]

theorem literal_append (word bs : Bytes) : literal word (word ++ bs) = .ok ((), bs) := by
  induction word with
  | nil => rfl
  | cons b word ih => simp [literal, ih]

end Reader

def IsPlainByte (b : UInt8) : Prop := b ≠ 0x22 ∧ b ≠ 0x5C ∧ ¬ b < 0x20

theorem stringFrom_plain {bs : Bytes} (h : ∀ b ∈ bs, IsPlainByte b) (t : Bytes) :
    stringFrom .plain (bs ++ t) = (stringFrom .plain t).map (fun r => (bs ++ r.1, r.2)) := by
  induction bs with
  | nil => cases h : stringFrom .plain t <;> simp [h, Except.map]
  | cons b bs ih =>
    obtain ⟨hquote, hslash, hlow⟩ := h b List.mem_cons_self
    rw [List.cons_append, stringFrom, if_neg hquote, if_neg hslash, if_neg hlow,
      ih fun c hc => h c (List.mem_cons_of_mem b hc)]
    cases stringFrom .plain t <;> rfl

theorem isPlainByte_encodeChar {c : Char} (hquote : c ≠ '"') (hslash : c ≠ '\\') (hlow : ¬ c.toNat < 0x20)
    {b : UInt8} (hb : b ∈ Utf8.encodeChar c) : IsPlainByte b := by
  by_cases hc : c.toNat < 0x80
  · rw [Utf8.encodeChar_ascii hc, List.mem_singleton] at hb
    subst hb
    have hn := Utf8.toNat_ofNat_lt c.toNat (by omega)
    have hne {d : Char} (hd : c ≠ d) : c.toNat ≠ d.toNat := fun h => hd (Char.ext (UInt32.toNat.inj h))
    refine ⟨fun h => hne hquote ?_, fun h => hne hslash ?_, fun h => hlow ?_⟩
    · rw [← hn, h]
      rfl
    · rw [← hn, h]
      rfl
    · rw [UInt8.lt_iff_toNat_lt, hn] at h
      exact h
  · have h := Utf8.le_of_mem_encodeChar hc hb
    refine ⟨?_, ?_, ?_⟩
    · rintro rfl
      exact absurd h (by decide)
    · rintro rfl
      exact absurd h (by decide)
    · rw [UInt8.lt_iff_toNat_lt]
      have : (0x20 : UInt8).toNat = 32 := rfl
      omega

theorem hexDigit?_digitChar : ∀ d < 16, (Nat.digitChar d).toNat < 0x80 ∧
    hexDigit? (UInt8.ofNat (Nat.digitChar d).toNat) = some d := by decide

theorem stringFrom_digit {count value d : Nat} {high : Option Nat} (hd : d < 16) (hc : count < 3)
    (t : Bytes) : stringFrom (.digits count value high) (Utf8.encode [Nat.digitChar d] ++ t) =
      stringFrom (.digits (count + 1) (value * 16 + d) high) t := by
  obtain ⟨hascii, hhex⟩ := hexDigit?_digitChar d hd
  rw [Utf8.encode_cons, Utf8.encode_nil, Utf8.encodeChar_ascii hascii]
  simp [stringFrom, hhex, hc]

theorem stringFrom_unicodeEscape {c : Char} (h : c.toNat < 0x20) (t : Bytes) :
    stringFrom .plain (Utf8.encode (unicodeEscape c.toNat) ++ t) =
      (stringFrom .plain t).map (fun r => (Utf8.encodeChar c ++ r.1, r.2)) := by
  obtain ⟨hascii, hhex⟩ := hexDigit?_digitChar (c.toNat % 16) (by omega)
  have hstart : Utf8.encode (unicodeEscape c.toNat) ++ t = 0x5C :: 0x75 :: (Utf8.encode [Nat.digitChar 0] ++
      (Utf8.encode [Nat.digitChar 0] ++ (Utf8.encode [Nat.digitChar (c.toNat / 16)] ++
        (UInt8.ofNat (Nat.digitChar (c.toNat % 16)).toNat :: t)))) := by
    rw [unicodeEscape]
    simp only [Utf8.encode_cons, Utf8.encode_nil, Utf8.encodeChar_ascii hascii, List.append_assoc]
    rfl
  have hplain (u : Bytes) : stringFrom .plain (0x5C :: 0x75 :: u) = stringFrom (.digits 0 0 none) u := by
    simp [stringFrom]
  have hvalue : (((0 * 16 + 0) * 16 + 0) * 16 + c.toNat / 16) * 16 + c.toNat % 16 = c.toNat := by omega
  have hunit : unit? c.toNat none = some (Utf8.encodeChar c, .plain) := by
    rw [unit?, if_neg (by omega), Utf8.char?_toNat]
    rfl
  rw [hstart, hplain, stringFrom_digit (by omega) (by omega), stringFrom_digit (by omega) (by omega),
    stringFrom_digit (by omega) (by omega), stringFrom, hhex]
  simp only [Nat.lt_irrefl, if_false, hvalue, hunit]

theorem stringFrom_escapeChar (c : Char) (t : Bytes) :
    stringFrom .plain (Utf8.encode (escapeChar c) ++ t) =
      (stringFrom .plain t).map (fun r => (Utf8.encodeChar c ++ r.1, r.2)) := by
  unfold escapeChar
  split
  · subst_vars
    rfl
  split
  · subst_vars
    rfl
  split
  · subst_vars
    rfl
  split
  · subst_vars
    rfl
  split
  · subst_vars
    rfl
  split
  · subst_vars
    rfl
  split
  · subst_vars
    rfl
  split
  · exact stringFrom_unicodeEscape (by assumption) t
  · rename_i hquote hslash _ _ _ _ _ hlow
    rw [Utf8.encode_cons, Utf8.encode_nil, List.append_nil]
    exact stringFrom_plain (fun b hb => isPlainByte_encodeChar hquote hslash hlow hb) t

theorem stringFrom_text (s : List Char) (rest : Bytes) :
    stringFrom .plain (Utf8.encode (s.flatMap escapeChar) ++ 0x22 :: rest) = .ok (Utf8.encode s, rest) := by
  induction s with
  | nil => rfl
  | cons c s ih =>
    rw [List.flatMap_cons, Utf8.encode_append, List.append_assoc, stringFrom_escapeChar, ih, Utf8.encode_cons]
    rfl

theorem encode_stringText (s : String) :
    Utf8.encode (stringText s) = 0x22 :: (Utf8.encode (s.toList.flatMap escapeChar) ++ [0x22]) := by
  rw [stringText, Utf8.encode_cons, Utf8.encode_append]
  rfl

theorem Reader.stringBody_text (s : String) (rest : Bytes) :
    stringBody (Utf8.encode (s.toList.flatMap escapeChar) ++ 0x22 :: rest) = .ok (s, rest) := by
  have hs := Utf8.string?_ofString s
  rw [Utf8.ofString] at hs
  simp [stringBody, stringFrom_text, hs]

end Keyring.Json

namespace Keyring.Decimal

theorem text_of_lt {n : Nat} (h : n < 10) : text n = [digitChar n] := by
  rw [text, count, if_pos h]
  rfl

theorem text_of_le {n : Nat} (h : 10 ≤ n) : text n = text (n / 10) ++ [digitChar n] := by
  rw [text, count, if_neg (by omega), digits, text]

theorem isDigit_digitChar (d : Nat) : isDigit (digitChar d) = true := by
  rw [isDigit, digit?_digitChar]
  rfl

theorem isDigit_of_mem_text {n : Nat} {c : Char} (h : c ∈ text n) : isDigit c = true := by
  induction n using Nat.strongRecOn with
  | ind n ih =>
    by_cases hn : n < 10
    · rw [text_of_lt hn, List.mem_singleton] at h
      exact h ▸ isDigit_digitChar n
    · rw [text_of_le (by omega), List.mem_append, List.mem_singleton] at h
      rcases h with h | rfl
      · exact ih (n / 10) (by omega) h
      · exact isDigit_digitChar n

theorem head_text (n : Nat) : ∃ c cs, text n = c :: cs ∧ (0 < n → digit? c ≠ some 0) := by
  induction n using Nat.strongRecOn with
  | ind n ih =>
    by_cases hn : n < 10
    · refine ⟨digitChar n, [], text_of_lt hn, fun hpos => ?_⟩
      rw [digit?_digitChar, Nat.mod_eq_of_lt hn]
      exact fun h => absurd (Option.some.inj h) (by omega)
    · obtain ⟨c, cs, hc, hzero⟩ := ih (n / 10) (by omega)
      refine ⟨c, cs ++ [digitChar n], by rw [text_of_le (by omega), hc]; rfl, fun _ => hzero (by omega)⟩

end Keyring.Decimal

namespace Keyring.Json

def EndsNumeral (rest : Bytes) : Prop :=
  ∀ b, rest.head? = some b → digit? b = none ∧ b ≠ 0x2E ∧ b ≠ 0x65 ∧ b ≠ 0x45

theorem endsNumeral_nil : EndsNumeral [] := nofun

theorem endsNumeral_cons {b : UInt8} {rest : Bytes} (h : digit? b = none ∧ b ≠ 0x2E ∧ b ≠ 0x65 ∧ b ≠ 0x45) :
    EndsNumeral (b :: rest) := by
  intro c hc
  cases hc
  exact h

theorem encodeChar_digit {c : Char} (h : Decimal.isDigit c = true) : ∃ b d, Utf8.encodeChar c = [b] ∧
    Decimal.digit? c = some d ∧ digit? b = some d ∧ Reader.isSpace b = false ∧ b ≠ 0x2D := by
  rw [Decimal.isDigit, Option.isSome_iff_exists] at h
  obtain ⟨d, hd⟩ := h
  have hrange : 48 ≤ c.toNat ∧ c.toNat ≤ 57 := by
    unfold Decimal.digit? at hd
    split at hd
    · assumption
    · cases hd
  have hn := Utf8.toNat_ofNat_lt c.toNat (by omega)
  have hne {b : UInt8} (hb : b.toNat < 48) : UInt8.ofNat c.toNat ≠ b := by
    rintro rfl
    omega
  refine ⟨UInt8.ofNat c.toNat, d, Utf8.encodeChar_ascii (by omega), hd, ?_, ?_, hne (by decide)⟩
  · rw [digit?, hn]
    exact hd
  · simp only [Reader.isSpace, Bool.or_eq_false_iff, decide_eq_false_iff_not]
    exact ⟨⟨⟨hne (by decide), hne (by decide)⟩, hne (by decide)⟩, hne (by decide)⟩

theorem digitRun_text {cs : List Char} (h : ∀ c ∈ cs, Decimal.isDigit c = true) {rest : Bytes}
    (hrest : EndsNumeral rest) :
    digitRun (Utf8.encode cs ++ rest) = (cs.map fun c => (Decimal.digit? c).getD 0, rest) := by
  induction cs with
  | nil =>
    cases rest with
    | nil => rfl
    | cons b rest => simp [digitRun, (hrest b rfl).1]
  | cons c cs ih =>
    obtain ⟨b, d, hb, hd, hdb, -⟩ := encodeChar_digit (h c List.mem_cons_self)
    have hcs := ih fun e he => h e (List.mem_cons_of_mem c he)
    simp [Utf8.encode_cons, hb, digitRun, hdb, hcs, hd]

namespace Reader

theorem optional_skip {accepted : List UInt8} {rest : Bytes}
    (h : ∀ b, rest.head? = some b → accepted.contains b = false) :
    optional accepted rest = .ok (none, rest) := by
  cases rest with
  | nil => rfl
  | cons b rest => rw [optional, if_neg (by rw [h b rfl]; decide)]

theorem numeral_text {n : Nat} {rest : Bytes} (hrest : EndsNumeral rest) (isNegative : Bool) :
    numeral ((if isNegative then [0x2D] else []) ++ (Utf8.encode (Decimal.text n) ++ rest)) =
      .ok (⟨isNegative, (Decimal.text n).map fun c => (Decimal.digit? c).getD 0, none, none⟩, rest) := by
  obtain ⟨c, cs, hc, hzero⟩ := Decimal.head_text n
  have hdigit {e : Char} (he : e ∈ Decimal.text n) := Decimal.isDigit_of_mem_text he
  have hsign : optional [0x2D] ((if isNegative then [0x2D] else []) ++ (Utf8.encode (Decimal.text n) ++ rest)) =
      .ok (if isNegative then some 0x2D else none, Utf8.encode (Decimal.text n) ++ rest) := by
    cases isNegative with
    | true => rfl
    | false =>
      obtain ⟨b, d, hb, -, -, -, hminus⟩ := encodeChar_digit (hdigit (hc ▸ List.mem_cons_self))
      refine optional_skip fun b' hb' => ?_
      rw [hc, Utf8.encode_cons, hb] at hb'
      cases hb'
      simp [hminus]
  have hdigits : digits (Utf8.encode (Decimal.text n) ++ rest) =
      .ok ((Decimal.text n).map fun c => (Decimal.digit? c).getD 0, rest) := by
    rw [digits, digitRun_text (fun _ he => hdigit he) hrest, hc]
    rfl
  -- a zero in front stands by itself
  have hlead : ((1 < ((Decimal.text n).map fun c => (Decimal.digit? c).getD 0).length) &&
      (((Decimal.text n).map fun c => (Decimal.digit? c).getD 0).head? = some 0)) = false := by
    by_cases hn : n < 10
    · rw [Decimal.text_of_lt hn]
      rfl
    · obtain ⟨d, hd⟩ := Option.isSome_iff_exists.mp (hdigit (hc ▸ List.mem_cons_self))
      have hne : d ≠ 0 := fun h => hzero (by omega) (h ▸ hd)
      simp [hc, hd, hne]
  -- and neither a point nor an exponent comes behind the digits
  have hpoint : optional [0x2E] rest = .ok (none, rest) := optional_skip fun b hb => by
    simp [(hrest b hb).2.1]
  have hmark : optional [0x65, 0x45] rest = .ok (none, rest) := optional_skip fun b hb => by
    simp [(hrest b hb).2.2]
  rw [numeral, bind_ok hsign, bind_ok hdigits]
  simp only [hlead, Bool.false_eq_true, if_false]
  rw [bind_ok hpoint]
  simp only [Option.isSome_none, Bool.false_eq_true, if_false, pure_bind]
  rw [bind_ok hmark]
  cases isNegative <;> rfl

theorem digitsValue_text (n : Nat) :
    digitsValue ((Decimal.text n).map fun c => (Decimal.digit? c).getD 0) = n := by
  rw [digitsValue, List.foldl_map]
  exact Decimal.value_text n

theorem number_text {n : Int} (h : -(wordLimit / 2 : Nat) ≤ n ∧ n < wordLimit) {rest : Bytes}
    (hrest : EndsNumeral rest) :
    number (Utf8.encode (Number.integer n).text ++ rest) = .ok (.integer n, rest) := by
  cases n with
  | ofNat k =>
    have hlt : k < wordLimit := by
      have := h.2
      simp only [Int.ofNat_eq_natCast] at this
      omega
    have hk : numeral (Utf8.encode (Decimal.text k) ++ rest) = _ := numeral_text hrest false
    rw [number, Number.text, Decimal.signed, bind_ok hk]
    simp [Numeral.number?, digitsValue_text, hlt]
  | negSucc k =>
    have hle : k + 1 ≤ wordLimit / 2 := by
      have := h.1
      omega
    have hk : numeral ([0x2D] ++ (Utf8.encode (Decimal.text (k + 1)) ++ rest)) = _ := numeral_text hrest true
    have htext : Utf8.encode (Number.integer (.negSucc k)).text ++ rest =
        [0x2D] ++ (Utf8.encode (Decimal.text (k + 1)) ++ rest) := by
      rw [Number.text, Decimal.signed, Utf8.encode_cons, List.append_assoc]
      rfl
    rw [htext, number, bind_ok hk]
    simp [Numeral.number?, digitsValue_text, hle, Int.negSucc_eq]

end Reader

end Keyring.Json
