import Keyring.Bytes

/-!
Authenticated encryption in the counter mode of Galois. A block is a number of 128 bits and the
block cipher a function on blocks. Main statements: a sealed text opens to what was sealed, and is
longer by one tag.
-/
set_option autoImplicit false

namespace Keyring.Gcm

/-- The product in the field of 2 ^ 128 elements, whose elements hold the lowest power in the
highest bit; `x` is read from that bit on while `v` runs through its multiples. -/
def productFrom (x : Nat) : (bits : Nat) → (v z : Nat) → Nat
  | 0, _, z => z
  | bits + 1, v, z =>
    let z' := if x.testBit bits then z ^^^ v else z
    productFrom x bits ((v / 2) ^^^ (if v % 2 = 0 then 0 else 0xE1 * 2 ^ 120)) z'

def product (x y : Nat) : Nat := productFrom x 128 y 0

def blocks (bs : Bytes) : List Nat :=
  match bs with
  | [] => []
  | b :: rest =>
    let piece := (b :: rest).take 16
    Bytes.toNat (piece ++ List.replicate (16 - piece.length) 0) :: blocks ((b :: rest).drop 16)
termination_by bs.length

def checksum (subkey : Nat) (ciphertext : Bytes) : Nat :=
  let absorb (sum block : Nat) : Nat := product (sum ^^^ block) subkey
  absorb ((blocks ciphertext).foldl absorb 0) (8 * ciphertext.length)

/-- The block of counter value `n` under a nonce. -/
def counterBlock (nonce : Bytes) (n : Nat) : Nat := Bytes.toNat (nonce ++ Bytes.ofNat 4 n)

def mask (cipher : Nat → Nat) (nonce : Bytes) (n : Nat) (bs : Bytes) : Bytes :=
  match bs with
  | [] => []
  | b :: rest =>
    Bytes.xor ((b :: rest).take 16) (Bytes.ofNat 16 (cipher (counterBlock nonce n))) ++
      mask cipher nonce (n + 1) ((b :: rest).drop 16)
termination_by bs.length

def tag (cipher : Nat → Nat) (nonce ciphertext : Bytes) : Bytes :=
  Bytes.ofNat 16 (checksum (cipher 0) ciphertext ^^^ cipher (counterBlock nonce 1))

def close (cipher : Nat → Nat) (nonce text : Bytes) : Bytes :=
  let ciphertext := mask cipher nonce 2 text
  ciphertext ++ tag cipher nonce ciphertext

/-- Decrypts what `close` made; nothing when the tag is missing or is not that of the ciphertext. -/
def open? (cipher : Nat → Nat) (nonce sealed : Bytes) : Option Bytes :=
  if sealed.length < 16 then none
  else
    let ciphertext := sealed.take (sealed.length - 16)
    if sealed.drop (sealed.length - 16) = tag cipher nonce ciphertext then
      some (mask cipher nonce 2 ciphertext)
    else none

@[simp] theorem tag_length (cipher : Nat → Nat) (nonce ciphertext : Bytes) :
    (tag cipher nonce ciphertext).length = 16 := by simp [tag]

theorem xor_length (a b : Bytes) : (Bytes.xor a b).length = min a.length b.length := by
  simp [Bytes.xor]

theorem mask_length (cipher : Nat → Nat) (nonce : Bytes) (n : Nat) (bs : Bytes) :
    (mask cipher nonce n bs).length = bs.length := by
  fun_induction mask cipher nonce n bs with
  | case1 => rfl
  | case2 n b rest ih =>
    rw [List.length_append, xor_length, ih, Bytes.ofNat_length, List.length_take, List.length_drop]
    omega

theorem xor_xor_cancel (a k : Bytes) (h : a.length ≤ k.length) : Bytes.xor (Bytes.xor a k) k = a := by
  induction a generalizing k with
  | nil => simp [Bytes.xor]
  | cons x a ih =>
    cases k with
    | nil => simp at h
    | cons y k =>
      have hx : (x ^^^ y) ^^^ y = x := by rw [UInt8.xor_assoc, UInt8.xor_self, UInt8.xor_zero]
      have h' := ih k (by simpa using h)
      simp only [Bytes.xor, List.zipWith_cons_cons, hx] at h' ⊢
      rw [h']

theorem mask_mask (cipher : Nat → Nat) (nonce : Bytes) (n : Nat) (bs : Bytes) :
    mask cipher nonce n (mask cipher nonce n bs) = bs := by
  fun_induction mask cipher nonce n bs with
  | case1 => simp [mask]
  | case2 n b rest ih =>
    generalize hk : Bytes.ofNat 16 (cipher (counterBlock nonce n)) = k
    have hkl : k.length = 16 := by rw [← hk, Bytes.ofNat_length]
    have hl : (Bytes.xor ((b :: rest).take 16) k).length = min 16 (rest.length + 1) := by
      rw [xor_length, List.length_take, hkl, List.length_cons]; omega
    have hml := mask_length cipher nonce (n + 1) ((b :: rest).drop 16)
    rw [List.length_drop, List.length_cons] at hml
    generalize hm : mask cipher nonce (n + 1) ((b :: rest).drop 16) = m at ih hml ⊢
    generalize hp : Bytes.xor ((b :: rest).take 16) k = p at hl ⊢
    have htake : (p ++ m).take 16 = p := by
      rw [List.take_append]
      have : m.take (16 - p.length) = [] := by
        rw [List.take_eq_nil_iff]
        by_cases hr : 15 ≤ rest.length
        · left; omega
        · right; exact List.eq_nil_of_length_eq_zero (by omega)
      rw [this, List.append_nil, List.take_of_length_le (by omega)]
    have hdrop : (p ++ m).drop 16 = m := by
      rw [List.drop_append]
      by_cases hr : 15 ≤ rest.length
      · rw [List.drop_eq_nil_of_le (by omega), show 16 - p.length = 0 by omega]; rfl
      · have : m = [] := List.eq_nil_of_length_eq_zero (by omega)
        rw [this, List.drop_eq_nil_of_le (by omega)]; simp
    cases hpm : p ++ m with
    | nil =>
      have : p.length = 0 := by
        have := congrArg List.length hpm
        rw [List.length_append, List.length_nil] at this; omega
      omega
    | cons c cs =>
      rw [mask, hk, ← hpm, htake, hdrop, ih, ← hp, xor_xor_cancel _ _ (by
        rw [hkl, List.length_take]; omega)]
      exact List.take_append_drop 16 (b :: rest)

theorem close_length (cipher : Nat → Nat) (nonce text : Bytes) :
    (close cipher nonce text).length = text.length + 16 := by
  simp [close, mask_length]

theorem open?_close (cipher : Nat → Nat) (nonce text : Bytes) :
    open? cipher nonce (close cipher nonce text) = some text := by
  have hm := mask_length cipher nonce 2 text
  generalize hc : mask cipher nonce 2 text = c at hm
  have ht := tag_length cipher nonce c
  generalize hg : tag cipher nonce c = t at ht
  have hlen : (c ++ t).length - 16 = c.length := by rw [List.length_append]; omega
  have hclose : close cipher nonce text = c ++ t := by simp only [close, hc, hg]
  have hback : mask cipher nonce 2 c = text := by rw [← hc, mask_mask]
  rw [hclose, open?, if_neg (by rw [List.length_append]; omega)]
  simp only [hlen, List.take_left, List.drop_left, hg, hback, if_true]

end Keyring.Gcm
