import Keyring.Bytes
import Keyring.Decimal

/-!
Base64 in two alphabets: `url` is unpadded, `standard` is padded. `encode` writes, `decode` reads only
what `encode` writes, and a refusal names the first thing that is wrong.
-/
set_option autoImplicit false

namespace Keyring.Base64

/-- An alphabet by its two last symbols, and whether a short group is filled up with `=`. -/
structure Alphabet where
  symbol62 : Char
  symbol63 : Char
  isPadded : Bool
  deriving DecidableEq, Repr

def url : Alphabet := ⟨'-', '_', false⟩

def standard : Alphabet := ⟨'+', '/', true⟩

/-- Why a text is no base64. Offsets count bytes, and symbols are byte values. -/
inductive Fault where
  | symbol (byte offset : Nat)
  | length (symbols : Nat)
  | lastSymbol (byte offset : Nat)
  | padding
  deriving DecidableEq, Repr

def Fault.message : Fault → String
  | .symbol b i => s!"Invalid symbol {b}, offset {i}."
  | .length n => s!"Invalid input length: {n}"
  | .lastSymbol b i => s!"Invalid last symbol {b}, offset {i}."
  | .padding => "Invalid padding"

def pad : UInt8 := 61

def Alphabet.symbol (a : Alphabet) (n : Nat) : UInt8 :=
  if n < 26 then UInt8.ofNat (65 + n)
  else if n < 52 then UInt8.ofNat (71 + n)
  else if n < 62 then UInt8.ofNat (n - 4)
  else if n = 62 then UInt8.ofNat a.symbol62.toNat
  else UInt8.ofNat a.symbol63.toNat

def Alphabet.bits? (a : Alphabet) (b : UInt8) : Option Nat :=
  let n := b.toNat
  if 65 ≤ n ∧ n ≤ 90 then some (n - 65)
  else if 97 ≤ n ∧ n ≤ 122 then some (n - 71)
  else if 48 ≤ n ∧ n ≤ 57 then some (n + 4)
  else if n = a.symbol62.toNat then some 62
  else if n = a.symbol63.toNat then some 63
  else none

def Alphabet.padding (a : Alphabet) (count : Nat) : Bytes :=
  if a.isPadded then List.replicate count pad else []

def encode (a : Alphabet) : Bytes → Bytes
  | [] => []
  | [x] => [a.symbol (x.toNat / 4), a.symbol (x.toNat % 4 * 16)] ++ a.padding 2
  | [x, y] => [a.symbol (x.toNat / 4), a.symbol (x.toNat % 4 * 16 + y.toNat / 16),
      a.symbol (y.toNat % 16 * 4)] ++ a.padding 1
  | x :: y :: z :: rest => a.symbol (x.toNat / 4) :: a.symbol (x.toNat % 4 * 16 + y.toNat / 16) ::
      a.symbol (y.toNat % 16 * 4 + z.toNat / 64) :: a.symbol (z.toNat % 64) :: encode a rest

def text (a : Alphabet) (bs : Bytes) : String :=
  String.ofList ((encode a bs).map fun b => Char.ofNat b.toNat)

def lastSymbols (a : Alphabet) (offset : Nat) : Bytes → Except Fault (List (UInt8 × Nat) × Bytes)
  | [] => .ok ([], [])
  | b :: rest =>
    if b = pad then .ok ([], b :: rest)
    else match a.bits? b with
      | none => .error (.symbol b.toNat offset)
      | some n => (lastSymbols a (offset + 1) rest).map fun (ss, r) => ((b, n) :: ss, r)

def lastBytes (offset : Nat) : List (UInt8 × Nat) → Except Fault Bytes
  | [(_, m), (c, n)] =>
    if n % 16 = 0 then .ok [UInt8.ofNat (m * 4 + n / 16)]
    else .error (.lastSymbol c.toNat (offset + 1))
  | [(_, m), (_, n), (d, k)] =>
    if k % 4 = 0 then .ok [UInt8.ofNat (m * 4 + n / 16), UInt8.ofNat (n % 16 * 16 + k / 4)]
    else .error (.lastSymbol d.toNat (offset + 2))
  | [(_, m), (_, n), (_, k), (_, l)] =>
    .ok [UInt8.ofNat (m * 4 + n / 16), UInt8.ofNat (n % 16 * 16 + k / 4),
      UInt8.ofNat (k % 4 * 64 + l)]
  | ss => .error (.length (offset + ss.length))

def decodeLast (a : Alphabet) (offset : Nat) (group : Bytes) : Except Fault Bytes := do
  let (symbols, rest) ← lastSymbols a offset group
  if rest ≠ [] ∧ symbols.length < 2 then
    throw (.symbol pad.toNat (offset + symbols.length))
  if rest.any (· ≠ pad) then
    throw (.symbol pad.toNat (offset + symbols.length))
  if symbols.length < 2 then
    throw (.length (offset + symbols.length))
  if a.isPadded then
    if (symbols.length + rest.length) % 4 ≠ 0 then throw .padding
  else if rest ≠ [] then throw .padding
  lastBytes offset symbols

def decodeGroups (a : Alphabet) (offset : Nat) : Bytes → Except Fault Bytes
  | w :: x :: y :: z :: b :: rest => do
    let value (i : Nat) (s : UInt8) : Except Fault Nat :=
      match a.bits? s with
      | some n => .ok n
      | none => .error (.symbol s.toNat (offset + i))
    let m ← value 0 w
    let n ← value 1 x
    let k ← value 2 y
    let l ← value 3 z
    let tail ← decodeGroups a (offset + 4) (b :: rest)
    return UInt8.ofNat (m * 4 + n / 16) :: UInt8.ofNat (n % 16 * 16 + k / 4) ::
      UInt8.ofNat (k % 4 * 64 + l) :: tail
  | [] => .ok []
  | group => decodeLast a offset group

/-- The bytes that symbols write. A last byte that stands alone in its group is looked at first. -/
def decode (a : Alphabet) (symbols : Bytes) : Except Fault Bytes :=
  match symbols.getLast? with
  | none => .ok []
  | some b =>
    if symbols.length % 4 = 1 ∧ b ≠ pad ∧ a.bits? b = none then
      .error (.symbol b.toNat (symbols.length - 1))
    else decodeGroups a 0 symbols

theorem bits?_symbol_url (n : Nat) (h : n < 64) : url.bits? (url.symbol n) = some n := by
  have : ∀ k : Fin 64, url.bits? (url.symbol k.val) = some k.val := by decide
  exact this ⟨n, h⟩

theorem bits?_symbol_standard (n : Nat) (h : n < 64) :
    standard.bits? (standard.symbol n) = some n := by
  have : ∀ k : Fin 64, standard.bits? (standard.symbol k.val) = some k.val := by decide
  exact this ⟨n, h⟩

end Keyring.Base64
