import Keyring.Der
import Keyring.Proofs.Bytes.Number

/-!
The distinguished forms of lengths and integers, told without their writers: of all byte strings that
denote a number, the shortest. Each number has one, and it is the one that is written.
-/
set_option autoImplicit false

namespace Keyring.Der

/-- The byte string is of a kind, and no shorter one is. -/
structure Shortest (kind : Bytes → Prop) (bs : Bytes) : Prop where
  holds : kind bs
  least : ∀ other, kind other → bs.length ≤ other.length

theorem Shortest.eq_of {kind : Bytes → Prop} {bs bs' : Bytes} (h : Shortest kind bs)
    (h' : Shortest kind bs') (heq : bs.length = bs'.length → bs = bs') : bs = bs' :=
  heq (Nat.le_antisymm (h.least bs' h'.holds) (h'.least bs h.holds))

section length

/-- The definite forms of a length: one byte below 128, or the bytes of the number behind a byte that
counts them. -/
inductive IsLength (n : Nat) : Bytes → Prop where
  | short (b : UInt8) (hb : b < 0x80) (hn : b.toNat = n) : IsLength n [b]
  | long (bs : Bytes) (hne : bs ≠ []) (hlt : bs.length < 0x7F) (hn : Bytes.toNat bs = n) :
      IsLength n (UInt8.ofNat (0x80 + bs.length) :: bs)

variable {n : Nat} {l l' : Bytes}

theorem IsLength.eq_of_length (h : IsLength n l) (h' : IsLength n l') (hlen : l.length = l'.length) :
    l = l' := by
  cases h with
  | short b _ hn =>
    cases h' with
    | short b' _ hn' => rw [UInt8.toNat_inj.mp (hn.trans hn'.symm)]
    | long bs' hne' _ _ => exact absurd (List.length_eq_zero_iff.mp (Nat.succ.inj hlen).symm) hne'
  | long bs hne _ hn =>
    cases h' with
    | short b' _ _ => exact absurd (List.length_eq_zero_iff.mp (Nat.succ.inj hlen)) hne
    | long bs' _ _ hn' => rw [Bytes.eq_of_toNat_eq (Nat.succ.inj hlen) (hn.trans hn'.symm)]

theorem IsLength.length_pos (h : IsLength n l) : 0 < l.length := by
  cases h <;> exact Nat.zero_lt_succ _

theorem IsLength.width_lt (h : IsLength n l) (hn : ¬ n < 0x80) : Bytes.width n < l.length := by
  cases h with
  | short b hb hbn => exact absurd (hbn ▸ UInt8.lt_iff_toNat_lt.mp hb) hn
  | long bs _ _ hbn => exact Nat.lt_succ_of_le (hbn ▸ Bytes.width_toNat_le bs)

theorem shortest_lengthBytes (h : Bytes.width n < 0x7F) : Shortest (IsLength n) (lengthBytes n) := by
  by_cases hn : n < 0x80
  · have hb : (UInt8.ofNat n).toNat = n := by simp; omega
    have hlt : UInt8.ofNat n < 0x80 := by rw [UInt8.lt_iff_toNat_lt, hb]; exact hn
    rw [lengthBytes, if_pos hn]
    exact ⟨.short _ hlt hb, fun l hl => hl.length_pos⟩
  · rw [lengthBytes, if_neg hn]
    have hform : IsLength n (UInt8.ofNat (0x80 + (Bytes.minimal n).length) :: Bytes.minimal n) := by
      refine .long _ (fun hnil => ?_) (Bytes.minimal_length n ▸ h) (Bytes.toNat_minimal n)
      have hzero := Bytes.toNat_minimal n
      rw [hnil] at hzero
      exact hn (hzero ▸ (by decide : (0 : Nat) < 0x80))
    rw [Bytes.minimal_length] at hform
    refine ⟨hform, fun l hl => ?_⟩
    rw [List.length_cons, Bytes.minimal_length]
    exact hl.width_lt hn

theorem shortest_length_iff (h : Bytes.width n < 0x7F) :
    Shortest (IsLength n) l ↔ l = lengthBytes n := by
  constructor
  · exact fun hl => hl.eq_of (shortest_lengthBytes h) (hl.holds.eq_of_length (shortest_lengthBytes h).holds)
  · rintro rfl
    exact shortest_lengthBytes h

end length

section integer

def signed : Bytes → Int
  | [] => 0
  | first :: rest =>
    if first < 0x80 then Bytes.toNat (first :: rest)
    else (Bytes.toNat (first :: rest) : Int) - (Nat.pow 256 (rest.length + 1) : Nat)

/-- The bytes may be the content of an integer with this value. -/
def IsInteger (z : Int) (content : Bytes) : Prop := content ≠ [] ∧ signed content = z

theorem signed_neg {first : UInt8} (rest : Bytes) (h : ¬ first < 0x80) : signed (first :: rest) < 0 := by
  have hlt := Bytes.toNat_lt (first :: rest)
  rw [List.length_cons] at hlt
  rw [signed, if_neg h]
  omega

variable {n : Nat}

theorem isInteger_cons_iff {first : UInt8} {rest : Bytes} :
    IsInteger n (first :: rest) ↔ first < 0x80 ∧ Bytes.toNat (first :: rest) = n := by
  constructor
  · rintro ⟨-, hvalue⟩
    by_cases h : first < 0x80
    · rw [signed, if_pos h] at hvalue
      exact ⟨h, Int.ofNat.inj hvalue⟩
    · have hneg := signed_neg rest h
      omega
  · rintro ⟨h, hvalue⟩
    exact ⟨List.cons_ne_nil _ _, by rw [signed, if_pos h, hvalue]⟩

theorem IsInteger.toNat_eq {content : Bytes} (h : IsInteger n content) : Bytes.toNat content = n := by
  cases content with
  | nil => exact absurd rfl h.1
  | cons first rest => exact (isInteger_cons_iff.mp h).2

theorem IsInteger.eq_of_length {content content' : Bytes} (h : IsInteger n content)
    (h' : IsInteger n content') (hlen : content.length = content'.length) : content = content' :=
  Bytes.eq_of_toNat_eq hlen (h.toNat_eq.trans h'.toNat_eq.symm)

/-- The sign takes up a bit, so that a number whose first byte has its highest bit set needs a byte more. -/
theorem IsInteger.length_lt {first : UInt8} {rest content : Bytes} (h : IsInteger n content)
    (hn : Bytes.toNat (first :: rest) = n) (hfirst : 0x80 ≤ first) : rest.length + 1 < content.length := by
  cases content with
  | nil => exact absurd rfl h.1
  | cons c cs =>
    obtain ⟨hc, hvalue⟩ := isInteger_cons_iff.mp h
    have hc : c.toNat < 0x80 := UInt8.lt_iff_toNat_lt.mp hc
    have hfirst : 0x80 ≤ first.toNat := UInt8.le_iff_toNat_le.mp hfirst
    have hcs := Bytes.toNat_lt cs
    rw [← hn, Bytes.toNat_cons, Bytes.toNat_cons] at hvalue
    rw [List.length_cons]
    refine Nat.succ_lt_succ (Nat.lt_of_not_le fun hle => ?_)
    have hpow : Nat.pow 256 cs.length ≤ Nat.pow 256 rest.length := Nat.pow_le_pow_right (by decide) hle
    have hlow : 0x80 * Nat.pow 256 rest.length ≤ first.toNat * Nat.pow 256 rest.length :=
      Nat.mul_le_mul_right _ hfirst
    have hhigh : (c.toNat + 1) * Nat.pow 256 cs.length ≤ 0x80 * Nat.pow 256 rest.length :=
      Nat.mul_le_mul hc hpow
    rw [Nat.add_mul, Nat.one_mul] at hhigh
    omega

theorem shortest_integerContent (bs : Bytes) : Shortest (IsInteger (Bytes.toNat bs)) (integerContent bs) := by
  have hvalue := Bytes.toNat_magnitude bs
  have hlen := Bytes.magnitude_length bs
  unfold integerContent
  split
  · rename_i hzero
    rw [hzero] at hvalue
    refine ⟨isInteger_cons_iff.mpr ⟨by decide, hvalue⟩, fun content hc => ?_⟩
    exact List.length_pos_iff.mpr hc.1
  · rename_i first rest hm
    rw [hm] at hvalue hlen
    split
    · rename_i hfirst
      refine ⟨isInteger_cons_iff.mpr ⟨by decide, ?_⟩, fun content hc => hc.length_lt hvalue hfirst⟩
      rw [← hvalue, Bytes.toNat_cons]
      simp
    · rename_i hfirst
      refine ⟨isInteger_cons_iff.mpr ⟨UInt8.not_le.mp hfirst, hvalue⟩, fun content hc => ?_⟩
      rw [hlen, ← hc.toNat_eq]
      exact Bytes.width_toNat_le content

theorem integerContent_minimal (bs : Bytes) :
    integerContent (Bytes.minimal (Bytes.toNat bs)) = integerContent bs := by
  have h : Bytes.magnitude (Bytes.minimal (Bytes.toNat bs)) = Bytes.magnitude bs := by
    rw [Bytes.magnitude_eq_minimal, Bytes.toNat_minimal, Bytes.magnitude_eq_minimal bs]
  rw [integerContent, h]
  rfl

theorem shortest_integer_iff {content : Bytes} :
    Shortest (IsInteger n) content ↔ content = integerContent (Bytes.minimal n) := by
  have hwritten := shortest_integerContent (Bytes.minimal n)
  rw [Bytes.toNat_minimal] at hwritten
  constructor
  · exact fun h => h.eq_of hwritten (h.holds.eq_of_length hwritten.holds)
  · rintro rfl
    exact hwritten

end integer

/-- An element with a length of at most 65535 in its distinguished form. -/
def IsElement (tag : Tag) (content element : Bytes) : Prop :=
  content.length ≤ 0xFFFF ∧ ∃ l, Shortest (IsLength content.length) l ∧ element = tag :: (l ++ content)

theorem width_length_lt {n : Nat} (h : n ≤ 0xFFFF) : Bytes.width n < 0x7F :=
  Nat.lt_of_le_of_lt (Bytes.width_le n 2 (Nat.lt_succ_of_le h)) (by decide)

theorem isElement_iff {tag : Tag} {content element : Bytes} :
    IsElement tag content element ↔ content.length ≤ 0xFFFF ∧ element = write tag content := by
  unfold IsElement
  refine and_congr_right fun h => ?_
  simp only [shortest_length_iff (width_length_lt h), exists_eq_left]
  rfl

end Keyring.Der
