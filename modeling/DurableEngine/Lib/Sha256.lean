/-
  DurableEngine.Lib.Sha256

  SHA-256 over byte lists, with 32-bit words as natural numbers below `2 ^ 32`.
-/

import Mathlib

namespace DurableEngine.Lib.Sha256

def word : Nat := 2 ^ 32

def rotr (n x : Nat) : Nat := (x >>> n ||| x <<< (32 - n)) % word

/-- Round constants: fractional parts of the cube roots of the first 64 primes. -/
def roundConstants : List Nat := [
  0x428a2f98, 0x71374491, 0xb5c0fbcf, 0xe9b5dba5, 0x3956c25b, 0x59f111f1, 0x923f82a4, 0xab1c5ed5,
  0xd807aa98, 0x12835b01, 0x243185be, 0x550c7dc3, 0x72be5d74, 0x80deb1fe, 0x9bdc06a7, 0xc19bf174,
  0xe49b69c1, 0xefbe4786, 0x0fc19dc6, 0x240ca1cc, 0x2de92c6f, 0x4a7484aa, 0x5cb0a9dc, 0x76f988da,
  0x983e5152, 0xa831c66d, 0xb00327c8, 0xbf597fc7, 0xc6e00bf3, 0xd5a79147, 0x06ca6351, 0x14292967,
  0x27b70a85, 0x2e1b2138, 0x4d2c6dfc, 0x53380d13, 0x650a7354, 0x766a0abb, 0x81c2c92e, 0x92722c85,
  0xa2bfe8a1, 0xa81a664b, 0xc24b8b70, 0xc76c51a3, 0xd192e819, 0xd6990624, 0xf40e3585, 0x106aa070,
  0x19a4c116, 0x1e376c08, 0x2748774c, 0x34b0bcb5, 0x391c0cb3, 0x4ed8aa4a, 0x5b9cca4f, 0x682e6ff3,
  0x748f82ee, 0x78a5636f, 0x84c87814, 0x8cc70208, 0x90befffa, 0xa4506ceb, 0xbef9a3f7, 0xc67178f2]

/-- The eight working variables. -/
structure Regs where
  (a b c d e f g h : Nat)

def initial : Regs :=
  ⟨0x6a09e667, 0xbb67ae85, 0x3c6ef372, 0xa54ff53a, 0x510e527f, 0x9b05688c, 0x1f83d9ab, 0x5be0cd19⟩

/-- Extend the message schedule by `n` words; `w` holds the last sixteen, newest first. -/
def schedule : Nat → List Nat → List Nat
  | 0, w => w
  | n + 1, w =>
      let w2 := w.getD 1 0
      let w7 := w.getD 6 0
      let w15 := w.getD 14 0
      let w16 := w.getD 15 0
      let s0 := rotr 7 w15 ^^^ rotr 18 w15 ^^^ w15 >>> 3
      let s1 := rotr 17 w2 ^^^ rotr 19 w2 ^^^ w2 >>> 10
      schedule n ((w16 + s0 + w7 + s1) % word :: w)

def round (r : Regs) (k w : Nat) : Regs :=
  let s1 := rotr 6 r.e ^^^ rotr 11 r.e ^^^ rotr 25 r.e
  let ch := (r.e &&& r.f) ^^^ ((word - 1 - r.e) &&& r.g)
  let t1 := r.h + s1 + ch + k + w
  let s0 := rotr 2 r.a ^^^ rotr 13 r.a ^^^ rotr 22 r.a
  let maj := (r.a &&& r.b) ^^^ (r.a &&& r.c) ^^^ (r.b &&& r.c)
  ⟨(t1 + s0 + maj) % word, r.a, r.b, r.c, (r.d + t1) % word, r.e, r.f, r.g⟩

def rounds (r : Regs) : List Nat → List Nat → Regs
  | k :: ks, w :: ws => rounds (round r k w) ks ws
  | _, _ => r

/-- Compress one block of sixteen words. -/
def compress (r : Regs) (block : List Nat) : Regs :=
  let s := rounds r roundConstants (schedule 48 block.reverse).reverse
  ⟨(r.a + s.a) % word, (r.b + s.b) % word, (r.c + s.c) % word, (r.d + s.d) % word,
    (r.e + s.e) % word, (r.f + s.f) % word, (r.g + s.g) % word, (r.h + s.h) % word⟩

/-- Big-endian bytes of a number, `n` of them. -/
def beBytes : Nat → Nat → List Nat
  | 0, _ => []
  | n + 1, x => (x >>> (8 * n)) % 256 :: beBytes n x

/-- The message followed by `0x80`, zeros, and its length in bits. -/
def pad (msg : List Nat) : List Nat :=
  let len := msg.length
  msg ++ 0x80 :: List.replicate ((119 - len % 64) % 64) 0 ++ beBytes 8 (8 * len)

def words : List Nat → List Nat
  | a :: b :: c :: d :: rest => (a <<< 24 ||| b <<< 16 ||| c <<< 8 ||| d) :: words rest
  | _ => []

/-- Compress `n` blocks off the front of a word list. -/
def blocks : Nat → Regs → List Nat → Regs
  | 0, r, _ => r
  | n + 1, r, ws => blocks n (compress r (ws.take 16)) (ws.drop 16)

/-- The 32 digest bytes. -/
def sum256 (msg : List Nat) : List Nat :=
  let ws := words (pad msg)
  let r := blocks (ws.length / 16) initial ws
  [r.a, r.b, r.c, r.d, r.e, r.f, r.g, r.h].flatMap (beBytes 4)

/-- The UTF-8 bytes of a character. -/
def charBytes (c : Char) : List Nat :=
  let n := c.toNat
  if n < 0x80 then [n]
  else if n < 0x800 then [0xc0 ||| n >>> 6, 0x80 ||| n &&& 0x3f]
  else if n < 0x10000 then [0xe0 ||| n >>> 12, 0x80 ||| (n >>> 6 &&& 0x3f), 0x80 ||| n &&& 0x3f]
  else [0xf0 ||| n >>> 18, 0x80 ||| (n >>> 12 &&& 0x3f), 0x80 ||| (n >>> 6 &&& 0x3f),
    0x80 ||| n &&& 0x3f]

/-- `[]byte(s)`. -/
def stringBytes (s : String) : List Nat := s.toList.flatMap charBytes

def hexDigit (n : Nat) : Char := "0123456789abcdef".toList.getD n '0'

/-- `hex.EncodeToString`. -/
def hexString (bytes : List Nat) : String :=
  String.ofList (bytes.flatMap (fun b => [hexDigit (b / 16), hexDigit (b % 16)]))

/-- The digest of a string in hexadecimal. -/
def hexSum (s : String) : String := hexString (sum256 (stringBytes s))

example : hexSum "abc" = "ba7816bf8f01cfea414140de5dae2223b00361a396177a9cb410ff61f20015ad" := by
  decide +kernel

end DurableEngine.Lib.Sha256
