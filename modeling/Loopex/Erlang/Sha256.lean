import Loopex.Erlang.ExternalFormat

/-!
# SHA-256 and hexadecimal

`sha256` is the hash of FIPS 180-4 on byte strings, with words as naturals below `2 ^ 32`; `hex` is
lowercase base 16.
-/

namespace Loopex.Erlang

namespace Sha256

/-- Rotation of a 32-bit word to the right. -/
def rotr (x k : ℕ) : ℕ := (x >>> k ||| x <<< (32 - k)) % 2 ^ 32

def smallSigma0 (x : ℕ) : ℕ := rotr x 7 ^^^ rotr x 18 ^^^ x >>> 3
def smallSigma1 (x : ℕ) : ℕ := rotr x 17 ^^^ rotr x 19 ^^^ x >>> 10
def bigSigma0 (x : ℕ) : ℕ := rotr x 2 ^^^ rotr x 13 ^^^ rotr x 22
def bigSigma1 (x : ℕ) : ℕ := rotr x 6 ^^^ rotr x 11 ^^^ rotr x 25
def ch (x y z : ℕ) : ℕ := x &&& y ^^^ (2 ^ 32 - 1 - x) &&& z
def maj (x y z : ℕ) : ℕ := x &&& y ^^^ x &&& z ^^^ y &&& z

/-- The round constants. -/
def roundConstants : List ℕ :=
  [0x428a2f98, 0x71374491, 0xb5c0fbcf, 0xe9b5dba5, 0x3956c25b, 0x59f111f1, 0x923f82a4, 0xab1c5ed5,
   0xd807aa98, 0x12835b01, 0x243185be, 0x550c7dc3, 0x72be5d74, 0x80deb1fe, 0x9bdc06a7, 0xc19bf174,
   0xe49b69c1, 0xefbe4786, 0x0fc19dc6, 0x240ca1cc, 0x2de92c6f, 0x4a7484aa, 0x5cb0a9dc, 0x76f988da,
   0x983e5152, 0xa831c66d, 0xb00327c8, 0xbf597fc7, 0xc6e00bf3, 0xd5a79147, 0x06ca6351, 0x14292967,
   0x27b70a85, 0x2e1b2138, 0x4d2c6dfc, 0x53380d13, 0x650a7354, 0x766a0abb, 0x81c2c92e, 0x92722c85,
   0xa2bfe8a1, 0xa81a664b, 0xc24b8b70, 0xc76c51a3, 0xd192e819, 0xd6990624, 0xf40e3585, 0x106aa070,
   0x19a4c116, 0x1e376c08, 0x2748774c, 0x34b0bcb5, 0x391c0cb3, 0x4ed8aa4a, 0x5b9cca4f, 0x682e6ff3,
   0x748f82ee, 0x78a5636f, 0x84c87814, 0x8cc70208, 0x90befffa, 0xa4506ceb, 0xbef9a3f7, 0xc67178f2]

structure Words where
  (a b c d e f g h : ℕ)

def initial : Words :=
  ⟨0x6a09e667, 0xbb67ae85, 0x3c6ef372, 0xa54ff53a, 0x510e527f, 0x9b05688c, 0x1f83d9ab, 0x5be0cd19⟩

/-- One round with the round constant `k` and the schedule word `w`. -/
def round (s : Words) (k w : ℕ) : Words :=
  let t1 := s.h + bigSigma1 s.e + ch s.e s.f s.g + k + w
  let t2 := bigSigma0 s.a + maj s.a s.b s.c
  ⟨(t1 + t2) % 2 ^ 32, s.a, s.b, s.c, (s.d + t1) % 2 ^ 32, s.e, s.f, s.g⟩

/-- The next schedule word, from the window of the sixteen before it. -/
def nextWord (window : List ℕ) : ℕ :=
  (smallSigma1 (window.getD 14 0) + window.getD 9 0 + smallSigma0 (window.getD 1 0) +
    window.getD 0 0) % 2 ^ 32

/-- The rounds over the constants `ks`, the window holding the current schedule word first. -/
def rounds : List ℕ → List ℕ → Words → Words
  | [], _, s => s
  | k :: ks, window, s => rounds ks (window.tail ++ [nextWord window]) (round s k (window.getD 0 0))

/-- The big-endian words of a block. -/
def blockWords : ℕ → Bytes → List ℕ
  | 0, _ => []
  | n + 1, b => ofBe (b.take 4) :: blockWords n (b.drop 4)

def compress (s : Words) (block : Bytes) : Words :=
  let r := rounds roundConstants (blockWords 16 block) s
  ⟨(s.a + r.a) % 2 ^ 32, (s.b + r.b) % 2 ^ 32, (s.c + r.c) % 2 ^ 32, (s.d + r.d) % 2 ^ 32,
   (s.e + r.e) % 2 ^ 32, (s.f + r.f) % 2 ^ 32, (s.g + r.g) % 2 ^ 32, (s.h + r.h) % 2 ^ 32⟩

/-- The message with its `1` bit, zeros up to eight bytes short of a block, and its length in bits. -/
def pad (b : Bytes) : Bytes :=
  b ++ 0x80 :: List.replicate ((119 - b.length % 64) % 64) 0 ++ be 8 (8 * b.length)

/-- `n` blocks compressed in order. -/
def blocks : ℕ → Bytes → Words → Words
  | 0, _, s => s
  | n + 1, b, s => blocks n (b.drop 64) (compress s (b.take 64))

end Sha256

open Sha256 in
/-- The 32-byte digest. -/
def sha256 (b : Bytes) : Bytes :=
  let s := blocks ((pad b).length / 64) (pad b) initial
  be 4 s.a ++ be 4 s.b ++ be 4 s.c ++ be 4 s.d ++ be 4 s.e ++ be 4 s.f ++ be 4 s.g ++ be 4 s.h

@[simp] theorem sha256_length (b : Bytes) : (sha256 b).length = 32 := by
  simp [sha256]

/-- The lowercase hexadecimal digit of a number below 16. -/
def hexDigit (n : ℕ) : UInt8 := if n < 10 then UInt8.ofNat (48 + n) else UInt8.ofNat (87 + n)

/-- `Base.encode16(b, case: lower)`. -/
def hex : Bytes → Bytes
  | [] => []
  | x :: b => hexDigit (x.toNat / 16) :: hexDigit (x.toNat % 16) :: hex b

@[simp] theorem hex_length (b : Bytes) : (hex b).length = 2 * b.length := by
  induction b with
  | nil => rfl
  | cons x b ih => simp [hex, ih]; omega

/-- A lowercase hexadecimal digit. -/
def isHex (c : UInt8) : Bool := (48 ≤ c.toNat && c.toNat ≤ 57) || (97 ≤ c.toNat && c.toNat ≤ 102)

theorem isHex_hexDigit {n : ℕ} (h : n < 16) : isHex (hexDigit n) = true := by
  interval_cases n <;> rfl

theorem all_isHex_hex (b : Bytes) : (hex b).all isHex = true := by
  induction b with
  | nil => rfl
  | cons x b ih =>
    have h1 := isHex_hexDigit (n := x.toNat / 16) (by have := x.toNat_lt; omega)
    have h2 := isHex_hexDigit (n := x.toNat % 16) (by omega)
    simp only [hex, List.all_cons, h1, h2, ih, Bool.and_self]

/-- A term that is written as a digest is: sixty-four lowercase hexadecimal digits. -/
def isDigest : Term → Bool
  | .binary b => b.length = 64 && b.all isHex
  | _ => false

example : hex (sha256 (utf8 "abc")) =
    utf8 "ba7816bf8f01cfea414140de5dae2223b00361a396177a9cb410ff61f20015ad" := by decide +kernel

end Loopex.Erlang
