import Keyring.Bytes

set_option autoImplicit false

namespace Keyring.Sha2

def rootFrom (k n : Nat) : (bits low : Nat) → Nat
  | 0, low => low
  | bits + 1, low =>
    let high := low + 1 <<< bits
    rootFrom k n bits (if Nat.pow high k ≤ n then high else low)

/-- The first `bits` binary digits behind the point of the `k`-th root of a number below 2 ^ (4 k). -/
def rootFraction (k bits n : Nat) : Nat := rootFrom k (n <<< (k * bits)) (bits + 5) 0 % 1 <<< bits

def isPrime (n : Nat) : Bool := 2 ≤ n && (List.range n).all (fun d => d < 2 || n % d != 0)

def primes : List Nat := (List.range 410).filter isPrime

structure Registers (ω : Type) where
  a : ω
  b : ω
  c : ω
  d : ω
  e : ω
  f : ω
  g : ω
  h : ω

def Registers.toList {ω : Type} (r : Registers ω) : List ω := [r.a, r.b, r.c, r.d, r.e, r.f, r.g, r.h]

/-- A member of the hash family: its word, how many bytes the word has, how many rounds a block
takes, and the four mixing functions of a word. -/
structure Family (ω : Type) where
  wordBytes : Nat
  rounds : Nat
  ofNat : Nat → ω
  toNat : ω → Nat
  upper0 : ω → ω
  upper1 : ω → ω
  lower0 : ω → ω
  lower1 : ω → ω

def rotate32 (x : UInt32) (n : UInt32) : UInt32 := (x >>> n) ||| (x <<< (32 - n))
def rotate64 (x : UInt64) (n : UInt64) : UInt64 := (x >>> n) ||| (x <<< (64 - n))

def sha256 : Family UInt32 where
  wordBytes := 4
  rounds := 64
  ofNat := UInt32.ofNat
  toNat := UInt32.toNat
  upper0 x := rotate32 x 2 ^^^ rotate32 x 13 ^^^ rotate32 x 22
  upper1 x := rotate32 x 6 ^^^ rotate32 x 11 ^^^ rotate32 x 25
  lower0 x := rotate32 x 7 ^^^ rotate32 x 18 ^^^ (x >>> 3)
  lower1 x := rotate32 x 17 ^^^ rotate32 x 19 ^^^ (x >>> 10)

def sha512 : Family UInt64 where
  wordBytes := 8
  rounds := 80
  ofNat := UInt64.ofNat
  toNat := UInt64.toNat
  upper0 x := rotate64 x 28 ^^^ rotate64 x 34 ^^^ rotate64 x 39
  upper1 x := rotate64 x 14 ^^^ rotate64 x 18 ^^^ rotate64 x 41
  lower0 x := rotate64 x 1 ^^^ rotate64 x 8 ^^^ (x >>> 7)
  lower1 x := rotate64 x 19 ^^^ rotate64 x 61 ^^^ (x >>> 6)

variable {ω : Type} [Add ω] [AndOp ω] [XorOp ω] [Complement ω]

namespace Family

def blockBytes (F : Family ω) : Nat := 16 * F.wordBytes

def constants (F : Family ω) : List ω :=
  (primes.take F.rounds).map (fun p => F.ofNat (rootFraction 3 (8 * F.wordBytes) p))

def start (F : Family ω) : Registers ω :=
  let word (p : Nat) : ω := F.ofNat (rootFraction 2 (8 * F.wordBytes) p)
  ⟨word 2, word 3, word 5, word 7, word 11, word 13, word 17, word 19⟩

def padded (F : Family ω) (message : Bytes) : Bytes :=
  let used := message.length + 1 + 2 * F.wordBytes
  let zeros := (F.blockBytes - used % F.blockBytes) % F.blockBytes
  message ++ 0x80 :: (List.replicate zeros 0 ++ Bytes.ofNat (2 * F.wordBytes) (8 * message.length))

/-- The words of a block, latest first, each more one computed from the sixteen before it. -/
@[specialize] def schedule (F : Family ω) : (more : Nat) → (latest : List ω) → List ω
  | 0, latest => latest
  | more + 1, latest =>
    let word (i : Nat) : ω := latest.getD i (F.ofNat 0)
    schedule F more ((F.lower1 (word 1) + word 6 + F.lower0 (word 14) + word 15) :: latest)

@[specialize] def round (F : Family ω) (r : Registers ω) (constant word : ω) : Registers ω :=
  let choice := (r.e &&& r.f) ^^^ (~~~r.e &&& r.g)
  let majority := (r.a &&& r.b) ^^^ (r.a &&& r.c) ^^^ (r.b &&& r.c)
  let t := r.h + F.upper1 r.e + choice + constant + word
  ⟨t + (F.upper0 r.a + majority), r.a, r.b, r.c, r.d + t, r.e, r.f, r.g⟩

def add (r s : Registers ω) : Registers ω :=
  ⟨r.a + s.a, r.b + s.b, r.c + s.c, r.d + s.d, r.e + s.e, r.f + s.f, r.g + s.g, r.h + s.h⟩

@[specialize] def compress (F : Family ω) (constants : List ω) (r : Registers ω) (words : List ω) :
    Registers ω :=
  let all := (F.schedule (F.rounds - 16) words.reverse).reverse
  add r ((constants.zip all).foldl (fun s kw => F.round s kw.1 kw.2) r)

def pieces {α : Type} (size : Nat) : (count : Nat) → List α → List (List α)
  | 0, _ => []
  | count + 1, xs => xs.take size :: pieces size count (xs.drop size)

@[specialize] def digest (F : Family ω) (constants : List ω) (start : Registers ω) (message : Bytes) :
    Bytes :=
  let bytes := F.padded message
  let words := (pieces F.wordBytes (bytes.length / F.wordBytes) bytes).map (fun w => F.ofNat (Bytes.toNat w))
  let blocks := pieces 16 (words.length / 16) words
  (blocks.foldl (F.compress constants) start).toList.flatMap (fun w => Bytes.ofNat F.wordBytes (F.toNat w))

theorem digest_length (F : Family ω) (constants : List ω) (start : Registers ω) (message : Bytes) :
    (F.digest constants start message).length = 8 * F.wordBytes := by
  simp only [digest, Registers.toList, List.flatMap_cons, List.flatMap_nil, List.length_append,
    List.length_nil, Bytes.ofNat_length]
  omega

end Family

def constants256 : List UInt32 := sha256.constants
def constants512 : List UInt64 := sha512.constants
def start256 : Registers UInt32 := sha256.start
def start512 : Registers UInt64 := sha512.start

end Keyring.Sha2

namespace Keyring

def sha256 (message : Bytes) : Bytes := Sha2.sha256.digest Sha2.constants256 Sha2.start256 message

def sha512 (message : Bytes) : Bytes := Sha2.sha512.digest Sha2.constants512 Sha2.start512 message

theorem sha256_length (message : Bytes) : (sha256 message).length = 32 :=
  Sha2.Family.digest_length _ _ _ message

theorem sha512_length (message : Bytes) : (sha512 message).length = 64 :=
  Sha2.Family.digest_length _ _ _ message

def hmacSha256 (key message : Bytes) : Bytes :=
  let short := if 64 < key.length then sha256 key else key
  let block := short ++ List.replicate (64 - short.length) 0
  sha256 (block.map (· ^^^ 0x5c) ++ sha256 (block.map (· ^^^ 0x36) ++ message))

end Keyring
