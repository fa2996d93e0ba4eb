import Infera.Json

/-! SHA-256. The state is eight 32-bit words; a block of sixteen words is mixed
in over sixty-four rounds, the message schedule being carried along as the
window of its next sixteen words. -/

namespace Infera.Sha256

structure Working where
  a : UInt32
  b : UInt32
  c : UInt32
  d : UInt32
  e : UInt32
  f : UInt32
  g : UInt32
  h : UInt32

namespace Working

def words (s : Working) : List UInt32 := [s.a, s.b, s.c, s.d, s.e, s.f, s.g, s.h]

def add (s t : Working) : Working :=
  ⟨s.a + t.a, s.b + t.b, s.c + t.c, s.d + t.d, s.e + t.e, s.f + t.f, s.g + t.g, s.h + t.h⟩

end Working

def initial : Working :=
  ⟨0x6a09e667, 0xbb67ae85, 0x3c6ef372, 0xa54ff53a, 0x510e527f, 0x9b05688c, 0x1f83d9ab, 0x5be0cd19⟩

def roundConstants : List UInt32 :=
  [0x428a2f98, 0x71374491, 0xb5c0fbcf, 0xe9b5dba5, 0x3956c25b, 0x59f111f1, 0x923f82a4, 0xab1c5ed5,
   0xd807aa98, 0x12835b01, 0x243185be, 0x550c7dc3, 0x72be5d74, 0x80deb1fe, 0x9bdc06a7, 0xc19bf174,
   0xe49b69c1, 0xefbe4786, 0x0fc19dc6, 0x240ca1cc, 0x2de92c6f, 0x4a7484aa, 0x5cb0a9dc, 0x76f988da,
   0x983e5152, 0xa831c66d, 0xb00327c8, 0xbf597fc7, 0xc6e00bf3, 0xd5a79147, 0x06ca6351, 0x14292967,
   0x27b70a85, 0x2e1b2138, 0x4d2c6dfc, 0x53380d13, 0x650a7354, 0x766a0abb, 0x81c2c92e, 0x92722c85,
   0xa2bfe8a1, 0xa81a664b, 0xc24b8b70, 0xc76c51a3, 0xd192e819, 0xd6990624, 0xf40e3585, 0x106aa070,
   0x19a4c116, 0x1e376c08, 0x2748774c, 0x34b0bcb5, 0x391c0cb3, 0x4ed8aa4a, 0x5b9cca4f, 0x682e6ff3,
   0x748f82ee, 0x78a5636f, 0x84c87814, 0x8cc70208, 0x90befffa, 0xa4506ceb, 0xbef9a3f7, 0xc67178f2]

def rotr (x n : UInt32) : UInt32 := (x >>> n) ||| (x <<< (32 - n))

def nextWord (window : List UInt32) : UInt32 :=
  let w0 := window.getD 0 0
  let w1 := window.getD 1 0
  let w14 := window.getD 14 0
  (rotr w14 17 ^^^ rotr w14 19 ^^^ (w14 >>> 10)) + window.getD 9 0 +
    (rotr w1 7 ^^^ rotr w1 18 ^^^ (w1 >>> 3)) + w0

def round (s : Working) (k w : UInt32) : Working :=
  let t1 := s.h + (rotr s.e 6 ^^^ rotr s.e 11 ^^^ rotr s.e 25) +
    ((s.e &&& s.f) ^^^ (~~~s.e &&& s.g)) + k + w
  let t2 := (rotr s.a 2 ^^^ rotr s.a 13 ^^^ rotr s.a 22) +
    ((s.a &&& s.b) ^^^ (s.a &&& s.c) ^^^ (s.b &&& s.c))
  ⟨t1 + t2, s.a, s.b, s.c, s.d + t1, s.e, s.f, s.g⟩

def rounds : List UInt32 → List UInt32 → Working → Working
  | [], _, s => s
  | k :: ks, window, s =>
    rounds ks (window.tail ++ [nextWord window]) (round s k (window.headD 0))

def compress (s : Working) (block : List UInt32) : Working :=
  s.add (rounds roundConstants block s)

/-- Big-endian words; the length is a multiple of four. -/
def wordsOf : List UInt8 → List UInt32
  | a :: b :: c :: d :: rest =>
    ((a.toUInt32 <<< 24) ||| (b.toUInt32 <<< 16) ||| (c.toUInt32 <<< 8) ||| d.toUInt32) ::
      wordsOf rest
  | _ => []

def bigEndian64 (n : ℕ) : List UInt8 :=
  (List.range 8).map fun i => UInt8.ofNat (n / 256 ^ (7 - i))

variable (message : List UInt8)

/-- A one bit, zeros up to the last eight bytes of a block, and the length in bits. -/
def pad : List UInt8 :=
  message ++ 0x80 :: List.replicate ((119 - message.length % 64) % 64) 0 ++
    bigEndian64 (message.length * 8)

def blocks : ℕ → List UInt8 → Working → Working
  | 0, _, s => s
  | n + 1, bytes, s => blocks n (bytes.drop 64) (compress s (wordsOf (bytes.take 64)))

def digest : Working :=
  blocks ((pad message).length / 64) (pad message) initial

def bytesOfWord (w : UInt32) : List UInt8 :=
  [(w >>> 24).toUInt8, (w >>> 16).toUInt8, (w >>> 8).toUInt8, w.toUInt8]

def digestBytes : List UInt8 := (digest message).words.flatMap bytesOfWord

def hexWord (w : UInt32) : List Char :=
  (List.range 8).map fun i => JsonText.hexDigit (w.toNat / 16 ^ (7 - i) % 16)

def hexdigest : List Char := (digest message).words.flatMap hexWord

def isLowerHex (c : Char) : Bool := "0123456789abcdef".toList.contains c

theorem length_hexdigest : (hexdigest message).length = 64 := by
  simp [hexdigest, Working.words, hexWord]

theorem isLowerHex_of_mem_hexdigest {message : List UInt8} {c : Char}
    (mem : c ∈ hexdigest message) : isLowerHex c = true := by
  have digits : ∀ d : Fin 16, isLowerHex (JsonText.hexDigit d) = true := by decide
  obtain ⟨w, -, written⟩ := List.mem_flatMap.1 mem
  obtain ⟨i, -, rfl⟩ := List.mem_map.1 written
  exact digits ⟨_, Nat.mod_lt _ (by decide)⟩

example : hexdigest [97, 98, 99] =
    "ba7816bf8f01cfea414140de5dae2223b00361a396177a9cb410ff61f20015ad".toList := by
  decide +kernel

end Infera.Sha256
