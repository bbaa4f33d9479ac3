import Keyring.Bytes

set_option autoImplicit false

namespace Keyring.Aes

def double (b : UInt8) : UInt8 := (b <<< 1) ^^^ (if b < 0x80 then 0 else 0x1b)

def mul : (bits : Nat) → UInt8 → UInt8 → UInt8
  | 0, _, _ => 0
  | bits + 1, a, b => (if b &&& 1 = 0 then 0 else a) ^^^ mul bits (double a) (b >>> 1)

/-- The inverse in the byte field, zero being its own: the power with exponent 254. -/
def inverse (b : UInt8) : UInt8 :=
  let p := (List.range 6).foldl (fun p _ => mul 8 (mul 8 p p) b) b
  mul 8 p p

def rotate (b n : UInt8) : UInt8 := (b <<< n) ||| (b >>> (8 - n))

def substitution (b : UInt8) : UInt8 :=
  let i := inverse b
  i ^^^ rotate i 1 ^^^ rotate i 2 ^^^ rotate i 3 ^^^ rotate i 4 ^^^ 0x63

def substitutions : Array UInt8 := ((List.range 256).map (fun n => substitution (UInt8.ofNat n))).toArray

def substitute (b : UInt8) : UInt8 := substitutions.getD b.toNat 0

/-- The next four bytes of the key schedule. `eight` are the last eight words, latest first. -/
def nextWord (index : Nat) (constant : UInt8) (eight : List Bytes) : Bytes :=
  let last := eight.headD []
  let turned :=
    if index % 8 = 0 then Bytes.xor ((last.drop 1 ++ last.take 1).map substitute) [constant, 0, 0, 0]
    else if index % 8 = 4 then last.map substitute
    else last
  Bytes.xor turned (eight.getD 7 [])

def extend : (more index : Nat) → (constant : UInt8) → (latest : List Bytes) → List Bytes
  | 0, _, _, latest => latest
  | more + 1, index, constant, latest =>
    let constant' := if index % 8 = 0 then double constant else constant
    extend more (index + 1) constant' (nextWord index constant latest :: latest)

def fours {α : Type} : List α → List (List α)
  | a :: b :: c :: d :: rest => [a, b, c, d] :: fours rest
  | _ => []

def roundKeys (key : Bytes) : List Bytes :=
  (fours (extend 52 8 1 (fours key).reverse).reverse).map List.flatten

def shiftRows (s : Bytes) : Bytes :=
  let square := s.toArray
  (List.range 16).map (fun i => square.getD (5 * i % 16) 0)

def mixColumns : Bytes → Bytes
  | a :: b :: c :: d :: rest =>
    let sum := a ^^^ b ^^^ c ^^^ d
    (a ^^^ sum ^^^ double (a ^^^ b)) :: (b ^^^ sum ^^^ double (b ^^^ c)) ::
      (c ^^^ sum ^^^ double (c ^^^ d)) :: (d ^^^ sum ^^^ double (d ^^^ a)) :: mixColumns rest
  | _ => []

def rounds (s : Bytes) : List Bytes → Bytes
  | [] => s
  | [last] => Bytes.xor (shiftRows (s.map substitute)) last
  | key :: keys => rounds (Bytes.xor (mixColumns (shiftRows (s.map substitute))) key) keys

def encrypt (keys : List Bytes) (block : Nat) : Nat :=
  match keys with
  | [] => block
  | key :: keys => Bytes.toNat (rounds (Bytes.xor (Bytes.ofNat 16 block) key) keys)

end Keyring.Aes
