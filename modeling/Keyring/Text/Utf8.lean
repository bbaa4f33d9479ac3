import Keyring.Bytes

set_option autoImplicit false

namespace Keyring.Utf8

def units (n : Nat) : List Nat :=
  if n < 0x80 then [n]
  else if n < 0x800 then [0xC0 + n / 64, 0x80 + n % 64]
  else if n < 0x10000 then [0xE0 + n / 4096, 0x80 + n / 64 % 64, 0x80 + n % 64]
  else [0xF0 + n / 262144, 0x80 + n / 4096 % 64, 0x80 + n / 64 % 64, 0x80 + n % 64]

def encodeChar (c : Char) : Bytes := (units c.toNat).map UInt8.ofNat

def encode (s : List Char) : Bytes := s.flatMap encodeChar

def char? (n : Nat) : Option Char := if n.isValidChar then some (Char.ofNat n) else none

def tail? (b : UInt8) : Option Nat :=
  if 0x80 ≤ b.toNat ∧ b.toNat < 0xC0 then some (b.toNat - 0x80) else none

/-- A code point that is at least the least one its form may write. -/
def shortest? (least n : Nat) : Option Char := if least ≤ n then char? n else none

/-- Reads on with `owed` continuation bytes of a character outstanding, whose bits so far are `bits`
and whose form writes nothing below `least`. -/
def scan? : (owed least bits : Nat) → Bytes → Option (List Char)
  | 0, _, _, [] => some []
  | 0, _, _, a :: rest =>
    if a.toNat < 0x80 then (char? a.toNat).bind fun c => (scan? 0 0 0 rest).map (c :: ·)
    else if a.toNat < 0xC0 then none
    else if a.toNat < 0xE0 then scan? 1 0x80 (a.toNat - 0xC0) rest
    else if a.toNat < 0xF0 then scan? 2 0x800 (a.toNat - 0xE0) rest
    else scan? 3 0x10000 (a.toNat - 0xF0) rest
  | _ + 1, _, _, [] => none
  | 1, least, bits, b :: rest => (tail? b).bind fun t => (shortest? least (bits * 64 + t)).bind fun c =>
      (scan? 0 0 0 rest).map (c :: ·)
  | owed + 2, least, bits, b :: rest => (tail? b).bind fun t =>
      scan? (owed + 1) least (bits * 64 + t) rest

def decode? (bs : Bytes) : Option (List Char) := scan? 0 0 0 bs

def string? (bs : Bytes) : Option String := (decode? bs).map String.ofList

def ofString (s : String) : Bytes := encode s.toList

@[simp] theorem encode_nil : encode [] = [] := rfl

@[simp] theorem encode_cons (c : Char) (s : List Char) :
    encode (c :: s) = encodeChar c ++ encode s := by simp [encode]

@[simp] theorem encode_append (s t : List Char) : encode (s ++ t) = encode s ++ encode t := by
  simp [encode]

theorem isValidChar_toNat (c : Char) : c.toNat.isValidChar := c.valid

theorem char?_toNat (c : Char) : char? c.toNat = some c := by
  simp [char?, isValidChar_toNat c]

theorem toNat_lt (c : Char) : c.toNat < 0x110000 := by
  have h := isValidChar_toNat c
  unfold Nat.isValidChar at h
  omega

theorem tail?_ofNat (n : Nat) (h : n < 64) : tail? (UInt8.ofNat (0x80 + n)) = some n := by
  have hb : (UInt8.ofNat (0x80 + n)).toNat = 0x80 + n := by
    simp [UInt8.toNat_ofNat']; omega
  unfold tail?
  rw [hb, if_pos (by omega)]
  simp

theorem toNat_ofNat_lt (n : Nat) (h : n < 256) : (UInt8.ofNat n).toNat = n := by
  simp [UInt8.toNat_ofNat']; omega

theorem decode?_encodeChar (c : Char) (rest : Bytes) :
    decode? (encodeChar c ++ rest) = (decode? rest).map (c :: ·) := by
  have hlt := toNat_lt c
  have hc := char?_toNat c
  simp only [encodeChar, units, decode?]
  generalize c.toNat = n at hlt hc ⊢
  split
  · rename_i h
    simp only [List.map_cons, List.map_nil, List.cons_append, List.nil_append]
    rw [scan?, toNat_ofNat_lt n (by omega), if_pos h, hc, Option.bind_some]
  split
  · rename_i h0 h
    simp only [List.map_cons, List.map_nil, List.cons_append, List.nil_append]
    rw [scan?, toNat_ofNat_lt (0xC0 + n / 64) (by omega), if_neg (by omega), if_neg (by omega),
      if_pos (by omega), scan?, tail?_ofNat (n % 64) (by omega), Option.bind_some,
      show (0xC0 + n / 64 - 0xC0) * 64 + n % 64 = n by omega, shortest?, if_pos (by omega), hc,
      Option.bind_some]
  split
  · rename_i h0 h1 h
    simp only [List.map_cons, List.map_nil, List.cons_append, List.nil_append]
    rw [scan?, toNat_ofNat_lt (0xE0 + n / 4096) (by omega), if_neg (by omega), if_neg (by omega),
      if_neg (by omega), if_pos (by omega), scan?, tail?_ofNat (n / 64 % 64) (by omega),
      Option.bind_some, scan?, tail?_ofNat (n % 64) (by omega), Option.bind_some,
      show ((0xE0 + n / 4096 - 0xE0) * 64 + n / 64 % 64) * 64 + n % 64 = n by omega, shortest?,
      if_pos (by omega), hc, Option.bind_some]
  · rename_i h0 h1 h
    simp only [List.map_cons, List.map_nil, List.cons_append, List.nil_append]
    rw [scan?, toNat_ofNat_lt (0xF0 + n / 262144) (by omega), if_neg (by omega), if_neg (by omega),
      if_neg (by omega), if_neg (by omega), scan?, tail?_ofNat (n / 4096 % 64) (by omega),
      Option.bind_some, scan?, tail?_ofNat (n / 64 % 64) (by omega), Option.bind_some, scan?,
      tail?_ofNat (n % 64) (by omega), Option.bind_some,
      show (((0xF0 + n / 262144 - 0xF0) * 64 + n / 4096 % 64) * 64 + n / 64 % 64) * 64 + n % 64 = n by
        omega, shortest?, if_pos (by omega), hc, Option.bind_some]

theorem decode?_encode (s : List Char) : decode? (encode s) = some s := by
  induction s with
  | nil => rfl
  | cons c s ih => rw [encode_cons, decode?_encodeChar, ih]; rfl

end Keyring.Utf8
