import Keyring.Bytes

/-!
Elements of DER: a tag, a length in the fewest bytes, and the content. `read?` reads the first
element of a byte string and `write` writes one; main statement: what was written reads back.
-/
set_option autoImplicit false

namespace Keyring.Der

abbrev Tag := UInt8

namespace Tag
def integer : Tag := 0x02
def bitString : Tag := 0x03
def octetString : Tag := 0x04
def null : Tag := 0x05
def objectIdentifier : Tag := 0x06
def sequence : Tag := 0x30
end Tag

structure Element where
  tag : Tag
  content : Bytes
  deriving DecidableEq, Repr

def universalTags : List Nat :=
  [0x01, 0x02, 0x03, 0x04, 0x05, 0x06, 0x09, 0x0A, 0x0C, 0x12, 0x13, 0x14, 0x15, 0x16, 0x17, 0x18, 0x1A,
    0x1E, 0x30, 0x31]

/-- A tag is that of a known universal type, or of another class with its number in the same byte. -/
def isTag (b : UInt8) : Bool :=
  if b < 0x40 then universalTags.contains b.toNat else b &&& 0x1F != 0x1F

/-- Lengths from here on are not handled. -/
def lengthLimit : Nat := 0x10000000

def lengthBytes (n : Nat) : Bytes :=
  if n < 0x80 then [UInt8.ofNat n]
  else UInt8.ofNat (0x80 + Bytes.width n) :: Bytes.minimal n

def readLength? : Bytes → Option (Nat × Bytes)
  | [] => none
  | first :: rest =>
    if first < 0x80 then some (first.toNat, rest)
    else
      let count := first.toNat - 0x80
      let n := Bytes.toNat (rest.take count)
      if count ≤ 4 ∧ count ≤ rest.length ∧ n < lengthLimit ∧ lengthBytes n = first :: rest.take count then
        some (n, rest.drop count)
      else none

def read? : Bytes → Option (Element × Bytes)
  | [] => none
  | tag :: rest =>
    if isTag tag then
      match readLength? rest with
      | none => none
      | some (n, rest) => if n ≤ rest.length then some (⟨tag, rest.take n⟩, rest.drop n) else none
    else none

def expect? (tag : Tag) (bs : Bytes) : Option (Bytes × Bytes) :=
  match read? bs with
  | none => none
  | some (e, rest) => if e.tag = tag then some (e.content, rest) else none

def only? (tag : Tag) (bs : Bytes) : Option Bytes :=
  match expect? tag bs with
  | some (content, []) => some content
  | _ => none

def write (tag : Tag) (content : Bytes) : Bytes := tag :: (lengthBytes content.length ++ content)

inductive IntegerFault where
  | empty
  | negative
  | nonMinimal
  deriving DecidableEq, Repr

/-- The bytes of a number that the content of an integer writes, which is not negative and has no
zero in front but for the sign. -/
def magnitude : Bytes → Except IntegerFault Bytes
  | [] => .error .empty
  | first :: rest =>
    if 0x80 ≤ first then .error .negative
    else if first = 0 then
      match rest with
      | [] => .ok [0]
      | second :: _ => if second < 0x80 then .error .nonMinimal else .ok rest
    else .ok (first :: rest)

/-- The content of an integer that is not negative, from its bytes with any zeros in front. -/
def integerContent (bs : Bytes) : Bytes :=
  match Bytes.magnitude bs with
  | [] => [0]
  | first :: rest => if 0x80 ≤ first then 0 :: first :: rest else first :: rest

def natural? (bs : Bytes) : Option (Nat × Bytes) :=
  match expect? .integer bs with
  | none => none
  | some (content, rest) =>
    match magnitude content with
    | .error _ => none
    | .ok m => some (Bytes.toNat m, rest)

def writeNatural (n : Nat) : Bytes := write .integer (integerContent (Bytes.minimal n))

/-- The bytes of a bit string that consists of whole bytes. -/
def wholeBytes? : Bytes → Option Bytes
  | 0 :: bytes => some bytes
  | _ => none

theorem lengthLimit_le : lengthLimit ≤ 1 <<< (8 * 4) := by decide

theorem readLength?_lengthBytes (n : Nat) (rest : Bytes) (h : n < lengthLimit) :
    readLength? (lengthBytes n ++ rest) = some (n, rest) := by
  have hw : Bytes.width n ≤ 4 := Bytes.width_le n 4 (Nat.lt_of_lt_of_le h lengthLimit_le)
  by_cases hs : n < 0x80
  · have hn : (UInt8.ofNat n).toNat = n := by simp [UInt8.toNat_ofNat']; omega
    have hlt : UInt8.ofNat n < 0x80 := by rw [UInt8.lt_iff_toNat_lt, hn]; exact hs
    simp [lengthBytes, hs, readLength?, hlt, hn]
  · have hf : (UInt8.ofNat (0x80 + Bytes.width n)).toNat = 0x80 + Bytes.width n := by
      simp [UInt8.toNat_ofNat']; omega
    have hlt : ¬ UInt8.ofNat (0x80 + Bytes.width n) < 0x80 := by
      rw [UInt8.lt_iff_toNat_lt, hf]
      have : (0x80 : UInt8).toNat = 0x80 := rfl
      omega
    have hb : lengthBytes n = UInt8.ofNat (0x80 + Bytes.width n) :: Bytes.minimal n := by
      simp [lengthBytes, hs]
    have htake : (Bytes.minimal n ++ rest).take (Bytes.width n) = Bytes.minimal n := by
      rw [← Bytes.minimal_length n, List.take_left]
    have hdrop : (Bytes.minimal n ++ rest).drop (Bytes.width n) = rest := by
      rw [← Bytes.minimal_length n, List.drop_left]
    rw [hb, List.cons_append, readLength?, if_neg hlt]
    simp only [hf, Nat.add_sub_cancel_left, htake, hdrop, Bytes.toNat_minimal, hb]
    rw [if_pos ⟨hw, by simp, h, trivial⟩]

theorem read?_write (tag : Tag) (content rest : Bytes) (ht : isTag tag = true)
    (h : content.length < lengthLimit) :
    read? (write tag content ++ rest) = some (⟨tag, content⟩, rest) := by
  rw [write, List.cons_append, read?, if_pos ht, List.append_assoc, readLength?_lengthBytes _ _ h]
  simp

end Keyring.Der
