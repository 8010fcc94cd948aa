import AisScript.Text.Utf8

/-!
# JSON texts

Reports and traces for other programs are JSON.  Members keep the order in which they are given.
Texts are escaped so that they can also be put into a web page: angle brackets, ampersands and the
two Unicode line separators never appear as themselves, and a stray byte becomes the replacement
character.

* `Json.compact`   on one line, without blanks
* `Json.indented`  a member or element to a line, two blanks a level
-/

namespace AisScript

/-- A JSON value with whole numbers only. -/
inductive Json where
  | text (value : Text)
  | number (value : Int)
  | list (elements : List Json)
  | record (members : List (Text × Json))

namespace Json

/-- A member of a record. -/
def member (name : Text) (value : Json) : Text × Json := (name, value)

/-- One code point inside a JSON text. -/
def escaped (code : Nat) : Text :=
  match code with
  | 0x22 => "\\\""
  | 0x5C => "\\\\"
  | 0x08 => "\\b"
  | 0x0C => "\\f"
  | 0x0A => "\\n"
  | 0x0D => "\\r"
  | 0x09 => "\\t"
  | _ =>
    if code < 0x20 || [0x26, 0x3C, 0x3E, 0x2028, 0x2029].contains code then
      "\\u" ++ Text.padded 4 16 code
    else Text.encode code

/-- A text between double quotes. -/
def quoted (t : Text) : Text :=
  [0x22] ++ t.glyphs.flatMap shown ++ [0x22]
where
  /-- One glyph inside the quotes. -/
  shown : Text.Glyph → Text
    | .char code => escaped code
    | .stray _ => Text.encode 0xFFFD

mutual

/-- The value on one line. -/
def compact : Json → Text
  | .text t => quoted t
  | .number n => Text.ofInt n
  | .list es => "[" ++ Text.join "," (compactAll es) ++ "]"
  | .record ms => "\x7b" ++ Text.join "," (compactMembers ms) ++ "\x7d"

/-- The elements of a list, each on its own. -/
def compactAll : List Json → List Text
  | [] => []
  | e :: es => compact e :: compactAll es

/-- The members of a record, each with its name. -/
def compactMembers : List (Text × Json) → List Text
  | [] => []
  | (k, v) :: ms => (quoted k ++ ":" ++ compact v) :: compactMembers ms

end

/-- Lines between two brackets, indented one level deeper than the closing one. -/
def block (level : Nat) (opening closing : Text) (lines : List Text) : Text :=
  if lines.isEmpty then opening ++ closing
  else
    let line (depth : Nat) : Text := "\n" ++ Text.blanks (2 * depth)
    opening ++ line (level + 1) ++ Text.join ("," ++ line (level + 1)) lines ++ line level ++ closing

mutual

/-- The value spread over lines; `level` is the depth at which it stands. -/
def indentedAt (level : Nat) : Json → Text
  | .text t => quoted t
  | .number n => Text.ofInt n
  | .list es => block level "[" "]" (indentedAll (level + 1) es)
  | .record ms => block level "\x7b" "\x7d" (indentedMembers (level + 1) ms)

/-- The elements of a list at one level. -/
def indentedAll (level : Nat) : List Json → List Text
  | [] => []
  | e :: es => indentedAt level e :: indentedAll level es

/-- The members of a record at one level. -/
def indentedMembers (level : Nat) : List (Text × Json) → List Text
  | [] => []
  | (k, v) :: ms => (quoted k ++ ": " ++ indentedAt level v) :: indentedMembers level ms

end

/-- The value spread over lines, with a newline at its end. -/
def indented (j : Json) : Text := indentedAt 0 j ++ "\n"

end Json

end AisScript
