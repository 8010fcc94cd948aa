import AisScript.Text

/-!
# Reading bytes as UTF-8

Characters are read by the usual table: overlong forms, surrogates and code points past U+10FFFF
are malformed.  A byte that begins no well-formed character is a stray byte on its own, so reading
never fails and never skips anything.

* `Text.glyphAt`  the first character and how many bytes follow its first one
* `Text.glyphs`   the whole text, character by character
* `Text.encode`   the bytes of a code point
-/

namespace AisScript.Text

/-- A character of a text, or a byte that belongs to no character. -/
inductive Glyph where
  | char (code : Nat)
  | stray (byte : UInt8)
deriving DecidableEq, Repr

/-- The code point shown for a stray byte. -/
def replacement : Nat := 0xFFFD

/-- The code point of a glyph; a stray byte counts as the replacement character. -/
def Glyph.code : Glyph → Nat
  | .char c => c
  | .stray _ => replacement

/-- A byte that may continue a character. -/
def isContinuation (b : UInt8) : Bool := 0x80 ≤ b && b ≤ 0xBF

/-- The glyph that begins with `b`, and the number of bytes of `rest` that belong to it. -/
def glyphAt (b : UInt8) (rest : Text) : Glyph × Nat :=
  let lead := b.toNat
  if lead < 0x80 then (.char lead, 0)
  else if 0xC2 ≤ lead && lead ≤ 0xDF then
    match rest with
    | c :: _ => if isContinuation c then (.char ((lead - 0xC0) * 64 + (c.toNat - 0x80)), 1)
      else (.stray b, 0)
    | [] => (.stray b, 0)
  else if 0xE0 ≤ lead && lead ≤ 0xEF then
    match rest with
    | c :: d :: _ =>
      let low := if lead = 0xE0 then 0xA0 else 0x80
      let high := if lead = 0xED then 0x9F else 0xBF
      if low ≤ c.toNat && c.toNat ≤ high && isContinuation d then
        (.char ((lead - 0xE0) * 4096 + (c.toNat - 0x80) * 64 + (d.toNat - 0x80)), 2)
      else (.stray b, 0)
    | _ => (.stray b, 0)
  else if 0xF0 ≤ lead && lead ≤ 0xF4 then
    match rest with
    | c :: d :: e :: _ =>
      let low := if lead = 0xF0 then 0x90 else 0x80
      let high := if lead = 0xF4 then 0x8F else 0xBF
      if low ≤ c.toNat && c.toNat ≤ high && isContinuation d && isContinuation e then
        (.char ((lead - 0xF0) * 262144 + (c.toNat - 0x80) * 4096 + (d.toNat - 0x80) * 64
          + (e.toNat - 0x80)), 3)
      else (.stray b, 0)
    | _ => (.stray b, 0)
  else (.stray b, 0)

/-- The number of bytes that a first byte announces to follow it. -/
def announced (b : UInt8) : Nat :=
  if b < 0xC2 then 0 else if b < 0xE0 then 1 else if b < 0xF0 then 2 else if b < 0xF8 then 3 else 0

/-- The text as a sequence of characters and stray bytes. -/
def glyphs : Text → List Glyph
  | [] => []
  | b :: rest =>
    let (g, more) := glyphAt b rest
    g :: glyphs (rest.drop more)
termination_by t => t.length
decreasing_by simp only [List.length_drop, List.length_cons]; omega

/-- The UTF-8 bytes of a code point. -/
def encode (code : Nat) : Text :=
  if code < 0x80 then [code.toUInt8]
  else if code < 0x800 then [(0xC0 + code / 64).toUInt8, (0x80 + code % 64).toUInt8]
  else if code < 0x10000 then
    [(0xE0 + code / 4096).toUInt8, (0x80 + code / 64 % 64).toUInt8, (0x80 + code % 64).toUInt8]
  else
    [(0xF0 + code / 262144).toUInt8, (0x80 + code / 4096 % 64).toUInt8,
      (0x80 + code / 64 % 64).toUInt8, (0x80 + code % 64).toUInt8]

/-- The bytes of a glyph. -/
def Glyph.bytes : Glyph → Text
  | .char c => encode c
  | .stray b => [b]

/-- Blanks in front of a text until it has at least `width` characters. -/
def flushRight (width : Nat) (t : Text) : Text := blanks (width - (glyphs t).length) ++ t

/-- Blanks behind a text until it has at least `width` characters. -/
def flushLeft (width : Nat) (t : Text) : Text := t ++ blanks (width - (glyphs t).length)

/-- A character that counts as white space. -/
def Glyph.isBlank : Glyph → Bool
  | .char c => c = 0x20 || (0x09 ≤ c && c ≤ 0x0D)
    || [0x85, 0xA0, 0x1680, 0x2028, 0x2029, 0x202F, 0x205F, 0x3000].contains c
    || (0x2000 ≤ c && c ≤ 0x200A)
  | .stray _ => false

/-- The text without the white space around it. -/
def trim (t : Text) : Text :=
  ((((glyphs t).dropWhile Glyph.isBlank).reverse.dropWhile Glyph.isBlank).reverse).flatMap Glyph.bytes

/-- Whether a text is well-formed UTF-8. -/
def isUtf8 (t : Text) : Bool :=
  (glyphs t).all fun g => match g with
    | .char _ => true
    | .stray _ => false

end AisScript.Text
