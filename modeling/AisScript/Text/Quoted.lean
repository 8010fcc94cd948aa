import AisScript.Text.Utf8
import AisScript.Text.Classes

/-!
# Quoted texts and characters

A quoted text stands between two quotation marks.  Printable characters are shown as they are;
the quotation mark and the backslash get a backslash, the usual controls their letter, and
everything else a numeric escape: `\x` for stray bytes and for characters below the space, `\u`
and `\U` for the rest.

* `Text.quote`       a text between double quotes
* `Text.quoteChar`   one code point between single quotes
-/

namespace AisScript.Text

/-- A code point as it appears between two `mark`s. -/
def escaped (mark : Char) (code : Nat) : Text :=
  if code = mark.toNat || code = 0x5C then [0x5C, code.toUInt8]
  else if isPrintable code then encode code
  else match code with
    | 0x07 => "\\a"
    | 0x08 => "\\b"
    | 0x0C => "\\f"
    | 0x0A => "\\n"
    | 0x0D => "\\r"
    | 0x09 => "\\t"
    | 0x0B => "\\v"
    | _ =>
      if code < 0x20 || code = 0x7F then "\\x" ++ padded 2 16 code
      else if code < 0x10000 then "\\u" ++ padded 4 16 code
      else "\\U" ++ padded 8 16 code

/-- A text between double quotes; stray bytes are written as two hexadecimal digits. -/
def quote (t : Text) : Text :=
  [0x22] ++ (glyphs t).flatMap shown ++ [0x22]
where
  /-- One glyph inside the quotes. -/
  shown : Glyph → Text
    | .char code => escaped '"' code
    | .stray b => "\\x" ++ padded 2 16 b.toNat

/-- A code point between single quotes. -/
def quoteChar (code : Nat) : Text := [0x27] ++ escaped '\'' code ++ [0x27]

end AisScript.Text
