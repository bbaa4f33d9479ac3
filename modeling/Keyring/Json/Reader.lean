import Keyring.Json.Fault
import Keyring.Text.Utf8

set_option autoImplicit false

namespace Keyring.Json

abbrev Reader := StateT Bytes (Except Fault)

namespace Reader

def fail {α : Type} (fault : Fault) : Reader α := fun _ => .error fault

def isSpace (b : UInt8) : Bool := b = 0x20 || b = 0x0A || b = 0x0D || b = 0x09

/-- Skips white space and gives the byte that follows, without taking it. -/
def peek : Reader (Option UInt8) := fun bs =>
  let rest := bs.dropWhile isSpace
  .ok (rest.head?, rest)

def take : Reader Unit := fun bs => .ok ((), bs.drop 1)

/-- Skips white space and takes the given byte, which must follow. -/
def mark (b : UInt8) : Reader Unit := do
  if (← peek) = some b then take else fail .malformed

def literal : Bytes → Reader Unit
  | [] => pure ()
  | b :: more => fun bs =>
    match bs with
    | [] => .error .malformed
    | c :: rest => if b = c then literal more rest else .error .malformed

def nullWord : Reader Unit := literal [0x6e, 0x75, 0x6c, 0x6c]

def trueWord : Reader Unit := literal [0x74, 0x72, 0x75, 0x65]

def falseWord : Reader Unit := literal [0x66, 0x61, 0x6c, 0x73, 0x65]

def finish : Reader Unit := do
  if (← peek) = none then pure () else fail .malformed

def run {α : Type} (r : Reader α) (bs : Bytes) : Except Fault α :=
  match r bs with
  | .error fault => .error fault
  | .ok (x, rest) =>
    match finish rest with
    | .error fault => .error fault
    | .ok _ => .ok x

end Reader

def hexDigit? (b : UInt8) : Option Nat :=
  let n := b.toNat
  if 48 ≤ n ∧ n ≤ 57 then some (n - 48)
  else if 65 ≤ n ∧ n ≤ 70 then some (n - 55)
  else if 97 ≤ n ∧ n ≤ 102 then some (n - 87)
  else none

def unescape? (b : UInt8) : Option UInt8 :=
  if b = 0x22 ∨ b = 0x5C ∨ b = 0x2F then some b
  else if b = 0x62 then some 0x08
  else if b = 0x66 then some 0x0C
  else if b = 0x6E then some 0x0A
  else if b = 0x72 then some 0x0D
  else if b = 0x74 then some 0x09
  else none

/-- How far the reading of a string has come. `high` is the first half of a surrogate pair that has
been read and is to be followed by an escaped second half. -/
inductive Stage where
  | plain
  | escape
  | digits (count value : Nat) (high : Option Nat)
  | backslash (high : Nat)
  | letter (high : Nat)

/-- What a code unit written by an escape adds to the string, and the stage after it. -/
def unit? (value : Nat) : Option Nat → Option (Bytes × Stage)
  | none =>
    if 0xD800 ≤ value ∧ value < 0xDC00 then some ([], .backslash value)
    else (Utf8.char? value).map (fun c => (Utf8.encodeChar c, .plain))
  | some high =>
    if 0xDC00 ≤ value ∧ value < 0xE000 then
      (Utf8.char? (0x10000 + (high - 0xD800) * 0x400 + (value - 0xDC00))).map
        (fun c => (Utf8.encodeChar c, .plain))
    else none

def stringFrom : Stage → Bytes → Except Fault (Bytes × Bytes)
  | _, [] => .error .malformed
  | .plain, b :: rest =>
    if b = 0x22 then .ok ([], rest)
    else if b = 0x5C then stringFrom .escape rest
    else if b < 0x20 then .error .malformed
    else (stringFrom .plain rest).map (fun r => (b :: r.1, r.2))
  | .escape, b :: rest =>
    if b = 0x75 then stringFrom (.digits 0 0 none) rest
    else match unescape? b with
      | none => .error .malformed
      | some c => (stringFrom .plain rest).map (fun r => (c :: r.1, r.2))
  | .backslash high, b :: rest => if b = 0x5C then stringFrom (.letter high) rest else .error .malformed
  | .letter high, b :: rest =>
    if b = 0x75 then stringFrom (.digits 0 0 (some high)) rest else .error .malformed
  | .digits count value high, b :: rest =>
    match hexDigit? b with
    | none => .error .malformed
    | some d =>
      if count < 3 then stringFrom (.digits (count + 1) (value * 16 + d) high) rest
      else match unit? (value * 16 + d) high with
        | none => .error .malformed
        | some (bytes, stage) => (stringFrom stage rest).map (fun r => (bytes ++ r.1, r.2))

/-- Passes over the rest of a string. Escapes must have their form, and nothing else is looked at. -/
def skipStringFrom : Stage → Bytes → Except Fault Bytes
  | _, [] => .error .malformed
  | .escape, b :: rest =>
    if b = 0x75 then skipStringFrom (.digits 0 0 none) rest
    else if (unescape? b).isSome then skipStringFrom .plain rest
    else .error .malformed
  | .digits count _ _, b :: rest =>
    if (hexDigit? b).isNone then .error .malformed
    else if count < 3 then skipStringFrom (.digits (count + 1) 0 none) rest
    else skipStringFrom .plain rest
  | _, b :: rest =>
    if b = 0x22 then .ok rest
    else if b = 0x5C then skipStringFrom .escape rest
    else if b < 0x20 then .error .malformed
    else skipStringFrom .plain rest

structure Numeral where
  isNegative : Bool
  whole : List Nat
  fraction : Option (List Nat)
  exponent : Option (Bool × List Nat)

def digit? (b : UInt8) : Option Nat :=
  if 48 ≤ b.toNat ∧ b.toNat ≤ 57 then some (b.toNat - 48) else none

def digitRun : Bytes → List Nat × Bytes
  | [] => ([], [])
  | b :: rest =>
    match digit? b with
    | none => ([], b :: rest)
    | some d => (d :: (digitRun rest).1, (digitRun rest).2)

namespace Reader

def digits : Reader (List Nat) := fun bs =>
  match digitRun bs with
  | ([], _) => .error .malformed
  | (ds, rest) => .ok (ds, rest)

def optional (accepted : List UInt8) : Reader (Option UInt8) := fun bs =>
  match bs with
  | [] => .ok (none, [])
  | b :: rest => if accepted.contains b then .ok (some b, rest) else .ok (none, bs)

/-- A numeral. A zero in front stands alone, and there are digits behind every mark. -/
def numeral : Reader Numeral := do
  let minus ← optional [0x2D]
  let whole ← digits
  if 1 < whole.length && whole.head? = some 0 then fail .malformed
  let point ← optional [0x2E]
  let fraction ← if point.isSome then some <$> digits else pure none
  let exponentMark ← optional [0x65, 0x45]
  let exponent ← if exponentMark.isSome then do
      let sign ← optional [0x2B, 0x2D]
      let ds ← digits
      pure (some (sign == some 0x2D, ds))
    else pure none
  return ⟨minus.isSome, whole, fraction, exponent⟩

def stringBody : Reader String := fun bs =>
  match stringFrom .plain bs with
  | .error fault => .error fault
  | .ok (bytes, rest) =>
    match Utf8.string? bytes with
    | none => .error .malformed
    | some s => .ok (s, rest)

def skipStringBody : Reader Unit := fun bs =>
  match skipStringFrom .plain bs with
  | .error fault => .error fault
  | .ok rest => .ok ((), rest)

end Reader
end Keyring.Json
