import Keyring.EcdsaSignature

/-!
The reader of DER by its accesses to bytes. An access out of range ends it without any outcome, which is not
the same as a fault. Main statement: it always has an outcome, the one of the reader over lists.
-/
set_option autoImplicit false

namespace Keyring.EcdsaSignature

/-- A reading of bytes by their places, which has no outcome once it asks for a byte that is not there. -/
abbrev Access (α : Type) := ExceptT Fault Option α

namespace Access

variable {α β : Type}

def ofExcept (x : Except Fault α) : Access α := ExceptT.mk (some x)

def at? (i : Nat) (bs : Bytes) : Access UInt8 := ExceptT.lift bs[i]?

def split (n : Nat) (bs : Bytes) : Access (Bytes × Bytes) :=
  ExceptT.lift (if n ≤ bs.length then some (bs.take n, bs.drop n) else none)

def take (n : Nat) (bs : Bytes) : Access (Bytes × Bytes) :=
  if bs.length < n then throw .truncated else split n bs

def byte (bs : Bytes) : Access (UInt8 × Bytes) := do
  let (head, rest) ← take 1 bs
  return (← at? 0 head, rest)

def readLength (bs : Bytes) : Access (Nat × Bytes) := do
  let (first, rest) ← byte bs
  if first < 0x80 then return (first.toNat, rest)
  else if first = 0x81 then do
    let (n, rest) ← byte rest
    if n < 0x80 then throw .nonMinimalLength else return (n.toNat, rest)
  else if first = 0x82 then do
    let (bytes, rest) ← take 2 rest
    let n := 256 * (← at? 0 bytes).toNat + (← at? 1 bytes).toNat
    if n < 0x100 then throw .nonMinimalLength else return (n, rest)
  else if first = 0x80 then throw .indefiniteLength
  else throw .lengthTooLarge

def readElement (tag : Der.Tag) (bs : Bytes) : Access (Bytes × Bytes) := do
  let (actual, rest) ← byte bs
  if actual ≠ tag then throw (.unexpectedTag actual tag)
  else do
    let (length, rest) ← readLength rest
    take length rest

def readInteger (bs : Bytes) : Access (Bytes × Bytes) := do
  let (content, rest) ← readElement .integer bs
  match Der.magnitude content with
  | .error fault => throw (.integer fault)
  | .ok magnitude => return (magnitude, rest)

def rawOfDer (der : Bytes) : Access Bytes := do
  let (body, rest) ← readElement .sequence der
  ofExcept (finish rest)
  let (r, body) ← readInteger body
  let (s, body) ← readInteger body
  ofExcept (finish body)
  let r ← ofExcept (coordinate r)
  let s ← ofExcept (coordinate s)
  return r ++ s

section outcome

@[simp] theorem ofExcept_error (fault : Fault) : (ofExcept (.error fault) : Access α) = throw fault := rfl

@[simp] theorem ofExcept_ok (x : α) : ofExcept (.ok x) = pure x := rfl

theorem ofExcept_bind (x : Except Fault α) (f : α → Except Fault β) :
    ofExcept (x >>= f) = ofExcept x >>= fun a => ofExcept (f a) := by cases x <;> rfl

theorem take_eq (n : Nat) (bs : Bytes) : take n bs = ofExcept (takeBytes n bs) := by
  unfold take takeBytes
  by_cases h : bs.length < n
  · simp only [h, if_true, ofExcept_error]
  · simp only [h, if_false, split, Nat.not_lt.mp h, if_true, ofExcept_ok]
    rfl

@[simp] theorem byte_nil : byte [] = throw .truncated := rfl

@[simp] theorem byte_cons (b : UInt8) (bs : Bytes) : byte (b :: bs) = pure (b, bs) := by
  rw [byte, take_eq]
  rfl

theorem take_two (high low : UInt8) (bs : Bytes) :
    take 2 (high :: low :: bs) = pure ([high, low], bs) := by
  rw [take_eq]
  rfl

@[simp] theorem at?_zero (b : UInt8) (bs : Bytes) : at? 0 (b :: bs) = pure b := rfl

@[simp] theorem at?_one (b b' : UInt8) (bs : Bytes) : at? 1 (b :: b' :: bs) = pure b' := rfl

theorem readLength_eq (bs : Bytes) : readLength bs = ofExcept (EcdsaSignature.readLength bs) := by
  cases bs with
  | nil => rfl
  | cons first rest =>
    simp only [readLength, EcdsaSignature.readLength, byte_cons, pure_bind]
    by_cases hshort : first < 0x80
    · simp only [hshort, if_true, ofExcept_ok]
    by_cases hone : first = 0x81
    · subst hone
      cases rest with
      | nil => rfl
      | cons n rest => by_cases hn : n < 0x80 <;> simp [hn]
    by_cases htwo : first = 0x82
    · subst htwo
      rcases rest with _ | ⟨high, _ | ⟨low, rest⟩⟩
      · rfl
      · rfl
      · have hsmall : 256 * high.toNat + low.toNat < 0x100 ↔ high = 0 := by
          have hlow := low.toNat_lt
          rw [← UInt8.toNat_inj, UInt8.toNat_zero]
          omega
        simp only [take_two, at?_zero, at?_one, pure_bind, hsmall]
        by_cases hhigh : high = 0 <;> simp [hhigh]
    · by_cases hindefinite : first = 0x80 <;> simp [hshort, hone, htwo, hindefinite]

theorem readElement_eq (tag : Der.Tag) (bs : Bytes) :
    readElement tag bs = ofExcept (EcdsaSignature.readElement tag bs) := by
  cases bs with
  | nil => rfl
  | cons actual rest =>
    simp only [readElement, EcdsaSignature.readElement, byte_cons, pure_bind]
    by_cases htag : actual = tag
    · simp only [htag, ne_eq, not_true_eq_false, if_false, readLength_eq, ofExcept_bind, take_eq]
    · simp [htag]

theorem readInteger_eq (bs : Bytes) : readInteger bs = ofExcept (EcdsaSignature.readInteger bs) := by
  simp only [readInteger, EcdsaSignature.readInteger, readElement_eq, ofExcept_bind]
  congr 1
  funext p
  cases Der.magnitude p.1 <;> rfl

/-- No byte string makes the reader access a byte that is not there. -/
theorem rawOfDer_eq (der : Bytes) : rawOfDer der = ofExcept (EcdsaSignature.rawOfDer der) := by
  simp only [rawOfDer, EcdsaSignature.rawOfDer, readElement_eq, readInteger_eq, ofExcept_bind]
  rfl

end outcome

end Access
end Keyring.EcdsaSignature
