import Mathlib.Data.Nat.Notation

/-!
# `crypto/sha256` and `crypto/hmac`

SHA-256 (FIPS 180-4) and HMAC (RFC 2104) with it. The theorems about tokens and lists hold for any
functions in their places; these are the ones that the servers use.
-/

namespace Blinex.Go

namespace Sha256

/-- The state of the hash. -/
structure State where
  a : UInt32
  b : UInt32
  c : UInt32
  d : UInt32
  e : UInt32
  f : UInt32
  g : UInt32
  h : UInt32

/-- The initial state. -/
def init : State where
  a := 0x6a09e667
  b := 0xbb67ae85
  c := 0x3c6ef372
  d := 0xa54ff53a
  e := 0x510e527f
  f := 0x9b05688c
  g := 0x1f83d9ab
  h := 0x5be0cd19

/-- The constants of the rounds. -/
def constants : List UInt32 :=
  [0x428a2f98, 0x71374491, 0xb5c0fbcf, 0xe9b5dba5, 0x3956c25b, 0x59f111f1, 0x923f82a4, 0xab1c5ed5,
    0xd807aa98, 0x12835b01, 0x243185be, 0x550c7dc3, 0x72be5d74, 0x80deb1fe, 0x9bdc06a7, 0xc19bf174,
    0xe49b69c1, 0xefbe4786, 0x0fc19dc6, 0x240ca1cc, 0x2de92c6f, 0x4a7484aa, 0x5cb0a9dc, 0x76f988da,
    0x983e5152, 0xa831c66d, 0xb00327c8, 0xbf597fc7, 0xc6e00bf3, 0xd5a79147, 0x06ca6351, 0x14292967,
    0x27b70a85, 0x2e1b2138, 0x4d2c6dfc, 0x53380d13, 0x650a7354, 0x766a0abb, 0x81c2c92e, 0x92722c85,
    0xa2bfe8a1, 0xa81a664b, 0xc24b8b70, 0xc76c51a3, 0xd192e819, 0xd6990624, 0xf40e3585, 0x106aa070,
    0x19a4c116, 0x1e376c08, 0x2748774c, 0x34b0bcb5, 0x391c0cb3, 0x4ed8aa4a, 0x5b9cca4f, 0x682e6ff3,
    0x748f82ee, 0x78a5636f, 0x84c87814, 0x8cc70208, 0x90befffa, 0xa4506ceb, 0xbef9a3f7, 0xc67178f2]

/-- Rotation to the right. -/
def rotr (x n : UInt32) : UInt32 := x >>> n ||| x <<< (32 - n)

/-- Extends the message schedule by `n` words; the last word comes first. -/
def schedule : Nat → List UInt32 → List UInt32
  | 0, w => w
  | n + 1, w =>
    let v1 := w.getD 1 0
    let v2 := w.getD 14 0
    let t1 := rotr v1 17 ^^^ rotr v1 19 ^^^ v1 >>> 10
    let t2 := rotr v2 7 ^^^ rotr v2 18 ^^^ v2 >>> 3
    schedule n ((t1 + w.getD 6 0 + t2 + w.getD 15 0) :: w)

/-- One round with its constant and its word. -/
def round (s : State) (kw : UInt32 × UInt32) : State :=
  let t1 := s.h + (rotr s.e 6 ^^^ rotr s.e 11 ^^^ rotr s.e 25) +
    (s.e &&& s.f ^^^ ~~~ s.e &&& s.g) + kw.1 + kw.2
  let t2 := (rotr s.a 2 ^^^ rotr s.a 13 ^^^ rotr s.a 22) +
    (s.a &&& s.b ^^^ s.a &&& s.c ^^^ s.b &&& s.c)
  { a := t1 + t2, b := s.a, c := s.b, d := s.c, e := s.d + t1, f := s.e, g := s.f, h := s.g }

/-- A word of four bytes. -/
def word (b : List UInt8) : UInt32 := b.foldl (fun w x => w <<< 8 ||| x.toUInt32) 0

/-- The bytes of a word. -/
def wordBytes (w : UInt32) : List UInt8 :=
  [(w >>> 24).toUInt8, (w >>> 16).toUInt8, (w >>> 8).toUInt8, w.toUInt8]

/-- One block of 64 bytes. -/
def block (s : State) (b : List UInt8) : State :=
  let words := (List.range 16).map fun i => word ((b.drop (4 * i)).take 4)
  let t := (constants.zip (schedule 48 words.reverse).reverse).foldl round s
  { a := s.a + t.a, b := s.b + t.b, c := s.c + t.c, d := s.d + t.d, e := s.e + t.e,
    f := s.f + t.f, g := s.g + t.g, h := s.h + t.h }

/-- The message with its padding and its length in bits. -/
def pad (msg : List UInt8) : List UInt8 :=
  let bits := 8 * msg.length
  msg ++ 0x80 :: List.replicate ((119 - msg.length % 64) % 64) 0 ++
    wordBytes (UInt32.ofNat (bits / 0x100000000)) ++ wordBytes (UInt32.ofNat bits)

/-- The state after the whole message. -/
def final (msg : List UInt8) : State :=
  let padded := pad msg
  (List.range (padded.length / 64)).foldl (fun s i => block s ((padded.drop (64 * i)).take 64)) init

/-- The hash as it is written. -/
def State.bytes (s : State) : List UInt8 :=
  [s.a, s.b, s.c, s.d, s.e, s.f, s.g, s.h].flatMap wordBytes

/-- `sha256.Sum256`. -/
def sum256 (msg : List UInt8) : List UInt8 := (final msg).bytes

/-- A hash has 32 bytes. -/
private theorem length_sum256 (msg : List UInt8) : (sum256 msg).length = 32 := rfl

example : sum256 "abc".toUTF8.data.toList = [0xba, 0x78, 0x16, 0xbf, 0x8f, 0x01, 0xcf, 0xea, 0x41,
    0x41, 0x40, 0xde, 0x5d, 0xae, 0x22, 0x23, 0xb0, 0x03, 0x61, 0xa3, 0x96, 0x17, 0x7a, 0x9c, 0xb4,
    0x10, 0xff, 0x61, 0xf2, 0x00, 0x15, 0xad] := by
  decide +kernel

/-- The hash of a string. -/
def ofString (s : String) : Vector UInt8 32 :=
  ⟨(sum256 s.toUTF8.data.toList).toArray, length_sum256 _⟩

end Sha256

/-- `hmac.New(sha256.New, secret)` and its sum of `msg`. -/
def hmacSHA256 (secret msg : String) : List UInt8 :=
  let key := secret.toUTF8.data.toList
  let key := if 64 < key.length then Sha256.sum256 key else key
  let key := key ++ List.replicate (64 - key.length) 0
  Sha256.sum256 (key.map (· ^^^ 0x5c) ++
    Sha256.sum256 (key.map (· ^^^ 0x36) ++ msg.toUTF8.data.toList))

example : hmacSHA256 "Jefe" "what do ya want for nothing?" = [0x5b, 0xdc, 0xc1, 0x46, 0xbf, 0x60,
    0x75, 0x4e, 0x6a, 0x04, 0x24, 0x26, 0x08, 0x95, 0x75, 0xc7, 0x5a, 0x00, 0x3f, 0x08, 0x9d, 0x27,
    0x39, 0x83, 0x9d, 0xec, 0x58, 0xb9, 0x64, 0xec, 0x38, 0x43] := by
  decide +kernel

end Blinex.Go
