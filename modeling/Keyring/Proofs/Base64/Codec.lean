import Keyring.Base64
import Keyring.Proofs.Except
import Keyring.Proofs.Text.Utf8
import Mathlib.Data.List.Basic

set_option autoImplicit false

namespace Keyring.Base64

variable {a : Alphabet}

/-- The symbols are told apart, also from the padding. -/
structure Alphabet.Lawful (a : Alphabet) : Prop where
  bits?_symbol : ∀ n < 64, a.bits? (a.symbol n) = some n
  bits?_pad : a.bits? pad = none
  symbol_lt : ∀ n < 64, (a.symbol n).toNat < 128

theorem url_lawful : url.Lawful where
  bits?_symbol := bits?_symbol_url
  bits?_pad := by decide
  symbol_lt := by decide

theorem standard_lawful : standard.Lawful where
  bits?_symbol := bits?_symbol_standard
  bits?_pad := by decide
  symbol_lt := by decide

theorem Alphabet.Lawful.symbol_ne_pad (h : a.Lawful) {n : Nat} (hn : n < 64) : a.symbol n ≠ pad := by
  intro hpad
  have hbits := h.bits?_symbol n hn
  rw [hpad, h.bits?_pad] at hbits
  cases hbits

theorem symbol_of_bits? {b : UInt8} {n : Nat} (h : a.bits? b = some n) : n < 64 ∧ a.symbol n = b := by
  have hb : UInt8.ofNat b.toNat = b := UInt8.ofNat_toNat
  simp only [Alphabet.bits?] at h
  unfold Alphabet.symbol
  split at h
  · cases h
    rw [if_pos (by omega), show 65 + (b.toNat - 65) = b.toNat by omega]
    exact ⟨by omega, hb⟩
  split at h
  · cases h
    rw [if_neg (by omega), if_pos (by omega), show 71 + (b.toNat - 71) = b.toNat by omega]
    exact ⟨by omega, hb⟩
  split at h
  · cases h
    rw [if_neg (by omega), if_neg (by omega), if_pos (by omega), Nat.add_sub_cancel]
    exact ⟨by omega, hb⟩
  split at h
  · rename_i h62
    cases h
    simp only [← h62]
    exact ⟨by omega, by simp⟩
  split at h
  · rename_i h63
    cases h
    simp only [← h63]
    exact ⟨by omega, by simp⟩
  · cases h

section group

variable {m n k l : Nat}

private theorem toNat_ofNat {v : Nat} (h : v < 256) : (UInt8.ofNat v).toNat = v := UInt8.toNat_ofNat_of_lt h

theorem encode_bits (hm : m < 64) (hn : n < 64) (hk : k < 64) (hl : l < 64) (rest : Bytes) :
    encode a (UInt8.ofNat (m * 4 + n / 16) :: UInt8.ofNat (n % 16 * 16 + k / 4) ::
      UInt8.ofNat (k % 4 * 64 + l) :: rest) =
    a.symbol m :: a.symbol n :: a.symbol k :: a.symbol l :: encode a rest := by
  rw [encode, toNat_ofNat (by omega), toNat_ofNat (by omega), toNat_ofNat (by omega)]
  congr 2
  · omega
  congr 2
  · omega
  congr 2
  · omega
  congr 2
  omega

theorem encode_bits_two (hm : m < 64) (hn : n < 64) (hk : k < 64) (h : k % 4 = 0) :
    encode a [UInt8.ofNat (m * 4 + n / 16), UInt8.ofNat (n % 16 * 16 + k / 4)] =
      [a.symbol m, a.symbol n, a.symbol k] ++ a.padding 1 := by
  rw [encode, toNat_ofNat (by omega), toNat_ofNat (by omega)]
  congr 3
  · omega
  congr 2
  · omega
  congr 2
  omega

theorem encode_bits_one (hm : m < 64) (hn : n < 64) (h : n % 16 = 0) :
    encode a [UInt8.ofNat (m * 4 + n / 16)] = [a.symbol m, a.symbol n] ++ a.padding 2 := by
  rw [encode, toNat_ofNat (by omega)]
  congr 3
  · omega
  congr 2
  omega

theorem bytes_of_bits (x y z : UInt8) :
    UInt8.ofNat (x.toNat / 4 * 4 + (x.toNat % 4 * 16 + y.toNat / 16) / 16) = x ∧
    UInt8.ofNat ((x.toNat % 4 * 16 + y.toNat / 16) % 16 * 16 + (y.toNat % 16 * 4 + z.toNat / 64) / 4) = y ∧
    UInt8.ofNat ((y.toNat % 16 * 4 + z.toNat / 64) % 4 * 64 + z.toNat % 64) = z := by
  have hx := x.toNat_lt
  have hy := y.toNat_lt
  have hz := z.toNat_lt
  refine ⟨?_, ?_, ?_⟩
  · rw [show x.toNat / 4 * 4 + (x.toNat % 4 * 16 + y.toNat / 16) / 16 = x.toNat by omega, UInt8.ofNat_toNat]
  · rw [show (x.toNat % 4 * 16 + y.toNat / 16) % 16 * 16 + (y.toNat % 16 * 4 + z.toNat / 64) / 4 = y.toNat by
      omega, UInt8.ofNat_toNat]
  · rw [show (y.toNat % 16 * 4 + z.toNat / 64) % 4 * 64 + z.toNat % 64 = z.toNat by omega, UInt8.ofNat_toNat]

end group

def Alphabet.spell (a : Alphabet) (ns : List Nat) : List (UInt8 × Nat) := ns.map fun n => (a.symbol n, n)

theorem lastSymbols_eq_ok {group rest : Bytes} {offset : Nat} {ss : List (UInt8 × Nat)}
    (h : lastSymbols a offset group = .ok (ss, rest)) :
    ∃ ns : List Nat, ss = a.spell ns ∧ (∀ n ∈ ns, n < 64) ∧ group = ns.map a.symbol ++ rest := by
  induction group generalizing offset ss with
  | nil =>
    cases h
    exact ⟨[], rfl, by simp, rfl⟩
  | cons b group ih =>
    unfold lastSymbols at h
    split at h
    · cases h
      exact ⟨[], rfl, by simp, rfl⟩
    cases hb : a.bits? b with
    | none => simp [hb] at h
    | some n =>
      cases hl : lastSymbols a (offset + 1) group with
      | error fault => simp [hb, hl, Except.map] at h
      | ok answer =>
        simp only [hb, hl, Except.map, Except.ok.injEq, Prod.mk.injEq] at h
        obtain ⟨rfl, rfl⟩ := h
        obtain ⟨ns, hns, hlt, rfl⟩ := ih hl
        obtain ⟨hn, rfl⟩ := symbol_of_bits? hb
        exact ⟨n :: ns, by simp [hns, Alphabet.spell], by simpa [hn] using hlt, rfl⟩

theorem lastSymbols_symbols (ha : a.Lawful) {ns : List Nat} (hns : ∀ n ∈ ns, n < 64) (offset count : Nat) :
    lastSymbols a offset (ns.map a.symbol ++ List.replicate count pad) =
      .ok (a.spell ns, List.replicate count pad) := by
  induction ns generalizing offset with
  | nil => cases count <;> simp [lastSymbols, List.replicate_succ, Alphabet.spell]
  | cons n ns ih =>
    have hn : n < 64 := hns n List.mem_cons_self
    simp only [List.map_cons, List.cons_append, lastSymbols, if_neg (ha.symbol_ne_pad hn),
      ha.bits?_symbol n hn, ih (fun m hm => hns m (List.mem_cons_of_mem n hm))]
    rfl

theorem decodeLast_eq_ok {group bs : Bytes} {offset : Nat} :
    decodeLast a offset group = .ok bs ↔ ∃ ss rest, lastSymbols a offset group = .ok (ss, rest) ∧
      2 ≤ ss.length ∧ (∀ b ∈ rest, b = pad) ∧
      (if a.isPadded then (ss.length + rest.length) % 4 = 0 else rest = []) ∧
      lastBytes offset ss = .ok bs := by
  unfold decodeLast
  cases lastSymbols a offset group with
  | error fault => simp [bind, Except.bind]
  | ok answer =>
    obtain ⟨ss, rest⟩ := answer
    have hpads : rest.any (· ≠ pad) = true ↔ ¬ ∀ b ∈ rest, b = pad := by simp
    have hlast : (if a.isPadded = true then
          (if (ss.length + rest.length) % 4 ≠ 0 then .error .padding else lastBytes offset ss)
        else if rest ≠ [] then .error .padding else lastBytes offset ss) = Except.ok bs ↔
        (if a.isPadded then (ss.length + rest.length) % 4 = 0 else rest = []) ∧
          lastBytes offset ss = .ok bs := by
      split <;> simp [ite_else_error_eq_ok]
    simp only [bind, Except.bind, Except.ok.injEq, Prod.mk.injEq, throw, throwThe,
      MonadExceptOf.throw, ite_error_eq_ok, hpads, hlast]
    constructor
    · rintro ⟨-, hp, hl, hb⟩
      exact ⟨ss, rest, ⟨rfl, rfl⟩, Nat.not_lt.mp hl, not_not.mp hp, hb⟩
    · rintro ⟨_, _, ⟨rfl, rfl⟩, hl, hp, hb⟩
      exact ⟨fun h => absurd h.2 (Nat.not_lt.mpr hl), not_not.mpr hp, Nat.not_lt.mpr hl, hb⟩

theorem encode_of_lastBytes {ns : List Nat} {bs : Bytes} {offset : Nat} (hns : ∀ n ∈ ns, n < 64)
    (h : lastBytes offset (a.spell ns) = .ok bs) :
    encode a bs = ns.map a.symbol ++ a.padding (4 - ns.length) := by
  match ns with
  | [] => cases h
  | [_] => cases h
  | [m, n] =>
    obtain ⟨hz, hbs⟩ := ite_else_error_eq_ok.mp h
    cases hbs
    exact encode_bits_one (hns m (by simp)) (hns n (by simp)) hz
  | [m, n, k] =>
    obtain ⟨hz, hbs⟩ := ite_else_error_eq_ok.mp h
    cases hbs
    exact encode_bits_two (hns m (by simp)) (hns n (by simp)) (hns k (by simp)) hz
  | [m, n, k, l] =>
    cases h
    rw [encode_bits (hns m (by simp)) (hns n (by simp)) (hns k (by simp)) (hns l (by simp))]
    simp [encode, Alphabet.padding]
  | _ :: _ :: _ :: _ :: _ :: _ => cases h

theorem encode_of_decodeLast {group bs : Bytes} {offset : Nat} (hg : group.length ≤ 4)
    (h : decodeLast a offset group = .ok bs) : group = encode a bs := by
  obtain ⟨ss, rest, hs, hlen, hpads, hrest, hbytes⟩ := decodeLast_eq_ok.mp h
  obtain ⟨ns, rfl, hns, rfl⟩ := lastSymbols_eq_ok hs
  rw [encode_of_lastBytes hns hbytes]
  simp only [Alphabet.spell, List.length_append, List.length_map] at hg hlen hrest
  congr 1
  unfold Alphabet.padding
  split
  · rename_i hp
    rw [if_pos hp] at hrest
    rw [List.eq_replicate_of_mem hpads]
    congr 1
    omega
  · rename_i hp
    rwa [if_neg hp] at hrest

theorem decodeGroups_eq_ok {w x y z b : UInt8} {rest bs : Bytes} {offset : Nat} :
    decodeGroups a offset (w :: x :: y :: z :: b :: rest) = .ok bs ↔ ∃ m n k l tail,
      a.bits? w = some m ∧ a.bits? x = some n ∧ a.bits? y = some k ∧ a.bits? z = some l ∧
      decodeGroups a (offset + 4) (b :: rest) = .ok tail ∧
      bs = UInt8.ofNat (m * 4 + n / 16) :: UInt8.ofNat (n % 16 * 16 + k / 4) ::
        UInt8.ofNat (k % 4 * 64 + l) :: tail := by
  simp only [decodeGroups, bind_eq_ok, pure_eq_ok]
  cases a.bits? w <;> cases a.bits? x <;> cases a.bits? y <;> cases a.bits? z <;> simp [@eq_comm _ bs]

theorem encode_of_decodeGroups {symbols bs : Bytes} {offset : Nat}
    (h : decodeGroups a offset symbols = .ok bs) : symbols = encode a bs := by
  match symbols with
  | [] =>
    cases h
    rfl
  | [_] | [_, _] | [_, _, _] | [_, _, _, _] => exact encode_of_decodeLast (by simp) h
  | w :: x :: y :: z :: b :: rest =>
    obtain ⟨m, n, k, l, tail, hm, hn, hk, hl, ht, rfl⟩ := decodeGroups_eq_ok.mp h
    obtain ⟨hm₁, rfl⟩ := symbol_of_bits? hm
    obtain ⟨hn₁, rfl⟩ := symbol_of_bits? hn
    obtain ⟨hk₁, rfl⟩ := symbol_of_bits? hk
    obtain ⟨hl₁, rfl⟩ := symbol_of_bits? hl
    rw [encode_bits hm₁ hn₁ hk₁ hl₁, ← encode_of_decodeGroups ht]

theorem decodeLast_symbols (ha : a.Lawful) {ns : List Nat} {bs : Bytes} {offset : Nat}
    (hns : ∀ n ∈ ns, n < 64) (hlen : 2 ≤ ns.length ∧ ns.length ≤ 4)
    (h : lastBytes offset (a.spell ns) = .ok bs) :
    decodeLast a offset (ns.map a.symbol ++ a.padding (4 - ns.length)) = .ok bs := by
  refine decodeLast_eq_ok.mpr ?_
  unfold Alphabet.padding
  split
  · refine ⟨_, _, lastSymbols_symbols ha hns offset (4 - ns.length), ?_, fun b hb => ?_, ?_, h⟩
    · simpa [Alphabet.spell] using hlen.1
    · exact List.eq_of_mem_replicate hb
    · rw [List.length_replicate, Alphabet.spell, List.length_map]
      omega
  · refine ⟨_, _, lastSymbols_symbols ha hns offset 0, ?_, by simp, rfl, h⟩
    simpa [Alphabet.spell] using hlen.1

theorem decodeGroups_encode (ha : a.Lawful) (bs : Bytes) (offset : Nat) :
    decodeGroups a offset (encode a bs) = .ok bs := by
  match bs with
  | [] => rfl
  | [x] =>
    have hx := x.toNat_lt
    have h : lastBytes offset (a.spell [x.toNat / 4, x.toNat % 4 * 16]) = .ok [x] := by
      simp only [Alphabet.spell, List.map_cons, List.map_nil, lastBytes]
      rw [if_pos (by omega), show x.toNat / 4 * 4 + x.toNat % 4 * 16 / 16 = x.toNat by omega,
        UInt8.ofNat_toNat]
    have hlast := decodeLast_symbols ha (by simp; omega) (by simp) h
    rw [encode]
    cases hp : a.isPadded <;> simp_all [Alphabet.padding, decodeGroups]
  | [x, y] =>
    have hx := x.toNat_lt
    have hy := y.toNat_lt
    have h : lastBytes offset (a.spell [x.toNat / 4, x.toNat % 4 * 16 + y.toNat / 16, y.toNat % 16 * 4]) =
        .ok [x, y] := by
      simp only [Alphabet.spell, List.map_cons, List.map_nil, lastBytes]
      rw [if_pos (by omega), show x.toNat / 4 * 4 + (x.toNat % 4 * 16 + y.toNat / 16) / 16 = x.toNat by omega,
        show (x.toNat % 4 * 16 + y.toNat / 16) % 16 * 16 + y.toNat % 16 * 4 / 4 = y.toNat by omega,
        UInt8.ofNat_toNat, UInt8.ofNat_toNat]
    have hlast := decodeLast_symbols ha (by simp; omega) (by simp) h
    rw [encode]
    cases hp : a.isPadded <;> simp_all [Alphabet.padding, decodeGroups]
  | [x, y, z] =>
    have hx := x.toNat_lt
    have hy := y.toNat_lt
    have hz := z.toNat_lt
    have h : lastBytes offset (a.spell [x.toNat / 4, x.toNat % 4 * 16 + y.toNat / 16,
        y.toNat % 16 * 4 + z.toNat / 64, z.toNat % 64]) = .ok [x, y, z] := by
      obtain ⟨h₁, h₂, h₃⟩ := bytes_of_bits x y z
      simp only [Alphabet.spell, List.map_cons, List.map_nil, lastBytes]
      rw [h₁, h₂, h₃]
    have hlast := decodeLast_symbols ha (by simp; omega) (by simp) h
    simpa [encode, Alphabet.padding, decodeGroups] using hlast
  | x :: y :: z :: u :: rest =>
    have hx := x.toNat_lt
    have hy := y.toNat_lt
    have hz := z.toNat_lt
    have ih := decodeGroups_encode ha (u :: rest) (offset + 4)
    obtain ⟨h₁, h₂, h₃⟩ := bytes_of_bits x y z
    obtain ⟨b, more, hmore⟩ : ∃ b more, encode a (u :: rest) = b :: more := by
      match rest with
      | [] | [_] | _ :: _ :: _ => exact ⟨_, _, rfl⟩
    rw [encode, hmore]
    rw [hmore] at ih
    refine decodeGroups_eq_ok.mpr ⟨_, _, _, _, _, ha.bits?_symbol _ (by omega), ha.bits?_symbol _ (by omega),
      ha.bits?_symbol _ (by omega), ha.bits?_symbol _ (by omega), ih, ?_⟩
    rw [h₁, h₂, h₃]

theorem length_encode (a : Alphabet) (bs : Bytes) : (encode a bs).length % 4 ≠ 1 := by
  match bs with
  | [] => simp [encode]
  | [_] | [_, _] =>
    unfold encode Alphabet.padding
    split <;> simp
  | x :: y :: z :: rest =>
    have ih := length_encode a rest
    simp only [encode, List.length_cons]
    omega

/-- The symbols that are read as a byte string are those that it is written in. -/
theorem decode_eq_ok_iff (ha : a.Lawful) {symbols bs : Bytes} :
    decode a symbols = .ok bs ↔ symbols = encode a bs := by
  unfold decode
  cases hl : symbols.getLast? with
  -- only the empty text has no last symbol
  | none =>
    rw [List.getLast?_eq_none_iff] at hl
    subst hl
    constructor
    · intro h
      cases h
      rfl
    · intro h
      match bs with
      | [] => rfl
      | [_] | [_, _] | _ :: _ :: _ :: _ => cases h
  | some b =>
    simp only [ite_error_eq_ok]
    constructor
    · exact fun h => encode_of_decodeGroups h.2
    · rintro rfl
      exact ⟨fun h => length_encode a bs h.1, decodeGroups_encode ha bs 0⟩

theorem mem_encode {bs : Bytes} {b : UInt8} (h : b ∈ encode a bs) :
    (a.isPadded = true ∧ b = pad) ∨ ∃ n < 64, b = a.symbol n := by
  have hpadding {count : Nat} (hb : b ∈ a.padding count) : a.isPadded = true ∧ b = pad := by
    unfold Alphabet.padding at hb
    split at hb
    · exact ⟨by assumption, List.eq_of_mem_replicate hb⟩
    · cases hb
  match bs with
  | [] => cases h
  | [x] =>
    have hx := x.toNat_lt
    simp only [encode, List.mem_append, List.mem_cons, List.not_mem_nil, or_false] at h
    rcases h with (rfl | rfl) | h
    · exact .inr ⟨_, by omega, rfl⟩
    · exact .inr ⟨_, by omega, rfl⟩
    · exact .inl (hpadding h)
  | [x, y] =>
    have hx := x.toNat_lt
    have hy := y.toNat_lt
    simp only [encode, List.mem_append, List.mem_cons, List.not_mem_nil, or_false] at h
    rcases h with (rfl | rfl | rfl) | h
    · exact .inr ⟨_, by omega, rfl⟩
    · exact .inr ⟨_, by omega, rfl⟩
    · exact .inr ⟨_, by omega, rfl⟩
    · exact .inl (hpadding h)
  | x :: y :: z :: rest =>
    have hx := x.toNat_lt
    have hy := y.toNat_lt
    have hz := z.toNat_lt
    simp only [encode, List.mem_cons] at h
    rcases h with rfl | rfl | rfl | rfl | h
    · exact .inr ⟨_, by omega, rfl⟩
    · exact .inr ⟨_, by omega, rfl⟩
    · exact .inr ⟨_, by omega, rfl⟩
    · exact .inr ⟨_, by omega, rfl⟩
    · exact mem_encode h

theorem encode_lt (ha : a.Lawful) (bs : Bytes) : ∀ b ∈ encode a bs, b.toNat < 128 := by
  intro b hb
  rcases mem_encode hb with ⟨-, rfl⟩ | ⟨n, hn, rfl⟩
  · decide
  · exact ha.symbol_lt n hn

theorem ofString_text (ha : a.Lawful) (bs : Bytes) : Utf8.ofString (text a bs) = encode a bs := by
  rw [Utf8.ofString, text, String.toList_ofList, Utf8.encode_ascii (encode_lt ha bs)]

theorem decode_text_eq_ok_iff (ha : a.Lawful) {s : List Char} {bs : Bytes} :
    decode a (Utf8.encode s) = .ok bs ↔ s = (text a bs).toList := by
  rw [decode_eq_ok_iff ha, ← ofString_text ha, Utf8.ofString]
  exact ⟨Utf8.encode_injective, congrArg Utf8.encode⟩

theorem dot_not_mem_text (bs : Bytes) : '.' ∉ (text url bs).toList := by
  rw [text, String.toList_ofList, List.mem_map]
  rintro ⟨b, hb, hdot⟩
  rcases mem_encode hb with ⟨h, -⟩ | ⟨n, hn, rfl⟩
  · cases h
  · have hsymbols : ∀ n < 64, Char.ofNat (url.symbol n).toNat ≠ '.' := by decide
    exact hsymbols n hn hdot

end Keyring.Base64
