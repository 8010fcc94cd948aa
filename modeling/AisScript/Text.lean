/-!
# Texts

A text is a sequence of bytes.  Scripts are UTF-8 by convention only: a string or code literal may
hold any byte and carries it through to the generated code, so names, messages, paths and outputs
are all byte sequences and not `String`s.  A `String` literal stands for its UTF-8 bytes wherever
a text is expected.

* `Text.ofString`   the UTF-8 bytes of a string
* `Text.ofNat`, `Text.ofInt`   decimal numerals
* `Text.join`, `Text.split`   gluing and cutting at a separator
-/

namespace AisScript

/-- A finite sequence of bytes. -/
abbrev Text := List UInt8

namespace Text

/-- The UTF-8 bytes of a string. -/
def ofString (s : String) : Text := s.toByteArray.data.toList

instance : Coe String Text := ⟨ofString⟩

/-- One ASCII character as a byte; characters beyond ASCII keep their low eight bits. -/
def byte (c : Char) : UInt8 := c.toNat.toUInt8

/-- A decimal digit. -/
def isDigit (b : UInt8) : Bool := 0x30 ≤ b && b ≤ 0x39

/-- The decimal numeral of a natural number. -/
def ofNat (n : Nat) : Text := (Nat.toDigits 10 n).map byte

/-- The decimal numeral of an integer, with a leading minus for negative ones. -/
def ofInt : Int → Text
  | .ofNat n => ofNat n
  | .negSucc n => byte '-' :: ofNat (n + 1)

/-- A numeral filled up with zeros on the left to at least `width` digits. -/
def padded (width base n : Nat) : Text :=
  let digits := (Nat.toDigits base n).map byte
  List.replicate (width - digits.length) (byte '0') ++ digits

/-- A run of blanks. -/
def blanks (n : Nat) : Text := List.replicate n 0x20

/-- The parts with a separator between any two of them. -/
def join (sep : Text) : List Text → Text
  | [] => []
  | [t] => t
  | t :: u :: ts => t ++ sep ++ join sep (u :: ts)

/-- Cuts a text at every occurrence of one byte; there is one part more than occurrences. -/
def split (sep : UInt8) : Text → List Text
  | [] => [[]]
  | b :: t =>
    if b = sep then [] :: split sep t
    else match split sep t with
      | [] => [[b]]
      | p :: ps => (b :: p) :: ps

/-- A text that appears only under a condition. -/
def when (condition : Bool) (t : Text) : Text := if condition then t else []

/-- Whether `t` occurs at the end of `s`. -/
def endsWith (s t : Text) : Bool := t.reverse.isPrefixOf s.reverse

/-- Replaces every occurrence of a non-empty pattern, scanning from the left. -/
def replace (pattern new : Text) (s : Text) : Text :=
  if pattern.isEmpty then s else go s.length s
where
  /-- The scan; `fuel` bounds the number of steps and `s.length` is enough. -/
  go : Nat → Text → Text
    | 0, s => s
    | _, [] => []
    | fuel + 1, b :: t =>
      if pattern.isPrefixOf (b :: t) then new ++ go fuel ((b :: t).drop pattern.length)
      else b :: go fuel t

/-- Whether a pattern occurs somewhere in a text. -/
def occursIn (pattern : Text) : Text → Bool
  | [] => pattern.isEmpty
  | b :: t => pattern.isPrefixOf (b :: t) || occursIn pattern t

/-- Byte order, the shorter of two texts first when one begins the other. -/
def le (s t : Text) : Bool := !decide (t < s)

end Text

end AisScript
