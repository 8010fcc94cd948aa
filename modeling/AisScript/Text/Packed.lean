import AisScript.Text

/-!
# MessagePack

A compact binary format for records.  Writing takes the shortest form that fits; reading takes any
form, and reads one value from the beginning of a text.

* `Packed.read?`   the first value of a text and what stands behind it
* `Packed.ofNat`, `word16`, `ofText`, `ofBytes`   written values
-/

namespace AisScript

/-- A value that was read. -/
inductive Packed where
  | null
  | number (value : Int)
  /-- Text or bytes. -/
  | bytes (value : Text)
  | list (elements : List Packed)
  | record (members : List (Packed × Packed))
  /-- A truth value, a floating-point number or an extension. -/
  | other
deriving Repr, Inhabited

namespace Packed

/-- A number in big-endian bytes. -/
def bigEndian (width n : Nat) : Text :=
  (List.range width).map fun i => (n / Nat.pow 256 (width - 1 - i) % 256).toUInt8

/-- A natural number in the shortest form. -/
def ofNat (n : Nat) : Text :=
  if n < 0x80 then [n.toUInt8]
  else if n < 0x100 then 0xCC :: bigEndian 1 n
  else if n < 0x10000 then 0xCD :: bigEndian 2 n
  else if n < 0x100000000 then 0xCE :: bigEndian 4 n
  else 0xCF :: bigEndian 8 n

/-- A number of two bytes, whatever its size. -/
def word16 (n : Nat) : Text := 0xCD :: bigEndian 2 n

/-- A text with its length in front. -/
def ofText (t : Text) : Text :=
  let n := t.length
  (if n < 0x20 then [(0xA0 + n).toUInt8]
    else if n < 0x100 then 0xD9 :: bigEndian 1 n
    else if n < 0x10000 then 0xDA :: bigEndian 2 n
    else 0xDB :: bigEndian 4 n) ++ t

/-- Bytes with their length in front. -/
def ofBytes (t : Text) : Text :=
  let n := t.length
  (if n < 0x100 then 0xC4 :: bigEndian 1 n
    else if n < 0x10000 then 0xC5 :: bigEndian 2 n
    else 0xC6 :: bigEndian 4 n) ++ t

/-- The value of big-endian bytes. -/
def natOf (t : Text) : Nat := t.foldl (fun n b => n * 256 + b.toNat) 0

/-- The value of big-endian bytes in two's complement. -/
def intOf (t : Text) : Int :=
  let n := natOf t
  let range := Nat.pow 256 t.length
  if 2 * n < range then n else (n : Int) - range

/-- The first `n` bytes and the rest, if there are so many. -/
def take? (n : Nat) (t : Text) : Option (Text × Text) :=
  if t.length < n then none else some (t.take n, t.drop n)

/-- Bytes whose number stands in the first `width` bytes. -/
def sized? (width : Nat) (t : Text) : Option (Text × Text) := do
  let (size, t) ← take? width t
  take? (natOf size) t

/-- Bytes that count as no value of their own. -/
def skipped? (n : Nat) (t : Text) : Option (Packed × Text) := do
  let (_, t) ← take? n t
  return (.other, t)

mutual

/-- Reads one value.  `fuel` bounds the number of values read. -/
def readWithin (fuel : Nat) (t : Text) : Option (Packed × Text) :=
  match fuel, t with
  | fuel + 1, c :: t =>
    let c := c.toNat
    let unsigned (width : Nat) : Option (Packed × Text) := do
      let (n, t) ← take? width t
      return (.number (natOf n), t)
    let signed (width : Nat) : Option (Packed × Text) := do
      let (n, t) ← take? width t
      return (.number (intOf n), t)
    let sized (width : Nat) : Option (Packed × Text) := do
      let (b, t) ← sized? width t
      return (.bytes b, t)
    let list (n : Nat) (t : Text) : Option (Packed × Text) := do
      let (es, t) ← readMany fuel n t
      return (.list es, t)
    let record (n : Nat) (t : Text) : Option (Packed × Text) := do
      let (ms, t) ← readMembers fuel n t
      return (.record ms, t)
    let extension (width : Nat) : Option (Packed × Text) := do
      let (size, t) ← take? width t
      skipped? (natOf size + 1) t
    if c < 0x80 then some (.number c, t)
    else if c < 0x90 then record (c - 0x80) t
    else if c < 0xA0 then list (c - 0x90) t
    else if c < 0xC0 then do
      let (b, t) ← take? (c - 0xA0) t
      return (.bytes b, t)
    else if 0xE0 ≤ c then some (.number ((c : Int) - 256), t)
    else match c with
      | 0xC0 => some (.null, t)
      | 0xC2 | 0xC3 => some (.other, t)
      | 0xC4 | 0xD9 => sized 1
      | 0xC5 | 0xDA => sized 2
      | 0xC6 | 0xDB => sized 4
      | 0xC7 => extension 1
      | 0xC8 => extension 2
      | 0xC9 => extension 4
      | 0xCA => skipped? 4 t
      | 0xCB => skipped? 8 t
      | 0xCC => unsigned 1
      | 0xCD => unsigned 2
      | 0xCE => unsigned 4
      | 0xCF => unsigned 8
      | 0xD0 => signed 1
      | 0xD1 => signed 2
      | 0xD2 => signed 4
      | 0xD3 => signed 8
      | 0xD4 => skipped? 2 t
      | 0xD5 => skipped? 3 t
      | 0xD6 => skipped? 5 t
      | 0xD7 => skipped? 9 t
      | 0xD8 => skipped? 17 t
      | 0xDC => do
        let (n, t) ← take? 2 t
        list (natOf n) t
      | 0xDD => do
        let (n, t) ← take? 4 t
        list (natOf n) t
      | 0xDE => do
        let (n, t) ← take? 2 t
        record (natOf n) t
      | 0xDF => do
        let (n, t) ← take? 4 t
        record (natOf n) t
      | _ => none
  | _, _ => none

/-- Reads `n` values. -/
def readMany (fuel n : Nat) (t : Text) : Option (List Packed × Text) :=
  match fuel, n with
  | _, 0 => some ([], t)
  | 0, _ => none
  | fuel + 1, n + 1 => do
    let (v, t) ← readWithin fuel t
    let (vs, t) ← readMany fuel n t
    return (v :: vs, t)

/-- Reads `n` members, a name and a value each. -/
def readMembers (fuel n : Nat) (t : Text) : Option (List (Packed × Packed) × Text) :=
  match fuel, n with
  | _, 0 => some ([], t)
  | 0, _ => none
  | fuel + 1, n + 1 => do
    let (k, t) ← readWithin fuel t
    let (v, t) ← readWithin fuel t
    let (ms, t) ← readMembers fuel n t
    return ((k, v) :: ms, t)

end

/-- The first value of a text and what stands behind it.  Nesting costs at most two steps a byte. -/
def read? (t : Text) : Option (Packed × Text) := readWithin (2 * t.length + 2) t

end Packed

end AisScript
