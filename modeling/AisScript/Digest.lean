import AisScript.Text

/-!
# SHA-256

The 256-bit secure hash of a text: the text is padded to a multiple of 64 bytes and every block of
64 bytes is mixed into a state of eight 32-bit words.

* `Text.sha256`   the 32 bytes of the digest
* `Text.hex`      bytes as lower-case hexadecimal digits
-/

namespace AisScript

/-- Two lower-case hexadecimal digits for every byte. -/
def Text.hex (t : Text) : Text := t.flatMap fun b => Text.padded 2 16 b.toNat

namespace Sha256

/-- The eight words of the state. -/
structure State where
  a : UInt32
  b : UInt32
  c : UInt32
  d : UInt32
  e : UInt32
  f : UInt32
  g : UInt32
  h : UInt32

/-- The state before the first block. -/
def State.initial : State :=
  ⟨0x6a09e667, 0xbb67ae85, 0x3c6ef372, 0xa54ff53a, 0x510e527f, 0x9b05688c, 0x1f83d9ab, 0x5be0cd19⟩

/-- The word added in each of the 64 rounds. -/
def roundWords : List UInt32 := [
  0x428a2f98, 0x71374491, 0xb5c0fbcf, 0xe9b5dba5, 0x3956c25b, 0x59f111f1, 0x923f82a4, 0xab1c5ed5,
  0xd807aa98, 0x12835b01, 0x243185be, 0x550c7dc3, 0x72be5d74, 0x80deb1fe, 0x9bdc06a7, 0xc19bf174,
  0xe49b69c1, 0xefbe4786, 0x0fc19dc6, 0x240ca1cc, 0x2de92c6f, 0x4a7484aa, 0x5cb0a9dc, 0x76f988da,
  0x983e5152, 0xa831c66d, 0xb00327c8, 0xbf597fc7, 0xc6e00bf3, 0xd5a79147, 0x06ca6351, 0x14292967,
  0x27b70a85, 0x2e1b2138, 0x4d2c6dfc, 0x53380d13, 0x650a7354, 0x766a0abb, 0x81c2c92e, 0x92722c85,
  0xa2bfe8a1, 0xa81a664b, 0xc24b8b70, 0xc76c51a3, 0xd192e819, 0xd6990624, 0xf40e3585, 0x106aa070,
  0x19a4c116, 0x1e376c08, 0x2748774c, 0x34b0bcb5, 0x391c0cb3, 0x4ed8aa4a, 0x5b9cca4f, 0x682e6ff3,
  0x748f82ee, 0x78a5636f, 0x84c87814, 0x8cc70208, 0x90befffa, 0xa4506ceb, 0xbef9a3f7, 0xc67178f2]

/-- Rotation to the right. -/
def rotate (x n : UInt32) : UInt32 := (x >>> n) ||| (x <<< (32 - n))

/-- Big-endian words of four bytes each. -/
def words : Text → List UInt32
  | a :: b :: c :: d :: rest =>
    ((a.toUInt32 <<< 24) ||| (b.toUInt32 <<< 16) ||| (c.toUInt32 <<< 8) ||| d.toUInt32) :: words rest
  | _ => []

/-- The big-endian bytes of a word. -/
def bytes (w : UInt32) : Text :=
  [(w >>> 24).toUInt8, (w >>> 16).toUInt8, (w >>> 8).toUInt8, w.toUInt8]

/-- Extends a message schedule word by word; the newest word stands first. -/
def extend : (count : Nat) → List UInt32 → List UInt32
  | 0, ws => ws
  | count + 1, ws =>
    let at' (i : Nat) : UInt32 := ws.getD (i - 1) 0
    let x := at' 15
    let y := at' 2
    let s0 := rotate x 7 ^^^ rotate x 18 ^^^ (x >>> 3)
    let s1 := rotate y 17 ^^^ rotate y 19 ^^^ (y >>> 10)
    extend count ((at' 16 + s0 + at' 7 + s1) :: ws)

/-- One round with a schedule word and a round word. -/
def round (s : State) (wk : UInt32 × UInt32) : State :=
  let s1 := rotate s.e 6 ^^^ rotate s.e 11 ^^^ rotate s.e 25
  let choice := (s.e &&& s.f) ^^^ (~~~s.e &&& s.g)
  let t1 := s.h + s1 + choice + wk.2 + wk.1
  let s0 := rotate s.a 2 ^^^ rotate s.a 13 ^^^ rotate s.a 22
  let majority := (s.a &&& s.b) ^^^ (s.a &&& s.c) ^^^ (s.b &&& s.c)
  ⟨t1 + (s0 + majority), s.a, s.b, s.c, s.d + t1, s.e, s.f, s.g⟩

/-- Mixes one block of sixteen words into the state. -/
def block (s : State) (ws : List UInt32) : State :=
  let schedule := (extend 48 ws.reverse).reverse
  let r := (schedule.zip roundWords).foldl round s
  ⟨s.a + r.a, s.b + r.b, s.c + r.c, s.d + r.d, s.e + r.e, s.f + r.f, s.g + r.g, s.h + r.h⟩

/-- The text with its padding: a one bit, zeros, and the length in bits as eight bytes. -/
def pad (t : Text) : Text :=
  let bits := t.length * 8
  let zeros := (119 - t.length % 64) % 64
  t ++ [0x80] ++ List.replicate zeros 0
    ++ (List.range 8).map fun i => (bits / Nat.pow 256 (7 - i)).toUInt8

/-- Mixes the blocks in one after another; `count` bounds their number. -/
def blocks : (count : Nat) → State → List UInt32 → State
  | 0, s, _ => s
  | count + 1, s, ws => if ws.isEmpty then s else blocks count (block s (ws.take 16)) (ws.drop 16)

end Sha256

/-- The SHA-256 digest: 32 bytes. -/
def Text.sha256 (t : Text) : Text :=
  let padded := Sha256.pad t
  let s := Sha256.blocks (padded.length / 64) .initial (Sha256.words padded)
  [s.a, s.b, s.c, s.d, s.e, s.f, s.g, s.h].flatMap Sha256.bytes

end AisScript
