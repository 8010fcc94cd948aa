import AisScript.Double
import AisScript.Text.Classes
import AisScript.Text.Utf8
import AisScript.Toml.Table

/-!
# Literals in TOML files

The values of a TOML file that hold no others: numbers, dates and quoted texts are read from the
bytes that spell them.  Nothing here looks at keys or tables.

A file is read up to the first place where it holds something that is no character of a TOML file;
that place is marked, and no literal reaches beyond it.

* `Toml.word?`               truth values, numbers, dates and times
* `Toml.basic`, `Toml.raw`   quoted texts, with and without escapes
-/

namespace AisScript.Toml

open Text (isDigit Glyph)

/-- Why a file is not read. -/
inductive Failure where
  /-- The file is not of the form of a TOML file, or it gives a key twice. -/
  | malformed
  /-- The reader lost its place and has nothing to say about the file. -/
  | lost
deriving DecidableEq, Repr

/-- What was found, or else a malformed file. -/
def orMalformed {α : Type} : Option α → Except Failure α
  | some a => .ok a
  | none => .error .malformed

/-! ## Characters -/

/-- The byte that marks where the readable part of a file ends before the file does. -/
def unreadable : UInt8 := 0x00

/-- Whether a character may stand in a file in front of another.  Control characters may not, and
neither may the replacement character; a carriage return stands in front of newlines only. -/
def isReadable (code : Nat) (next : Option Glyph) : Bool :=
  if code = 0x0D then next = some (.char 0x0A)
  else code = 0x09 || code = 0x0A || (0x20 ≤ code && code ≠ 0x7F && code ≠ Text.replacement)

/-- The readable part of a file, with a mark behind it unless that is all of it. -/
def readable : List Glyph → Text
  | [] => []
  | .stray _ :: _ => [unreadable]
  | .char code :: gs =>
    if isReadable code gs.head? then Text.encode code ++ readable gs else [unreadable]

/-- Whether a text begins with the mark behind the readable part of a file. -/
def isCut (t : Text) : Bool := t.head? = some unreadable

/-- The value of a digit in a base up to sixteen. -/
def digit? (base : Nat) (b : UInt8) : Option Nat :=
  let n :=
    if isDigit b then b.toNat - 0x30
    else if 0x61 ≤ b && b ≤ 0x66 then b.toNat - 0x61 + 10
    else if 0x41 ≤ b && b ≤ 0x46 then b.toNat - 0x41 + 10
    else 16
  if n < base then some n else none

/-- The value of digits in a base. -/
def digits? (base : Nat) (t : Text) : Option Nat :=
  t.foldl (fun n b => do return (← n) * base + (← digit? base b)) (some 0)

/-! ## Numbers -/

/-- The digits of a number without the underscores, each of which stands between two digits. -/
def ungrouped? (t : Text) : Option Text :=
  let groups := t.split 0x5F
  if groups.any (·.isEmpty) then none else some groups.flatten

/-- The sign in front of a number, and the rest. -/
def signed : Text → Bool × Text
  | 0x2D :: t => (true, t)
  | 0x2B :: t => (false, t)
  | t => (false, t)

/-- The whole part of a number: digits in groups, without a leading zero. -/
def whole? (t : Text) : Option Nat := do
  let n ← digits? 10 (← ungrouped? t)
  if 1 < t.length && t.head? = some 0x30 then none else some n

/-- An integer of 64 bits: decimal, or hexadecimal, octal or binary without a sign. -/
def integer? (t : Text) : Option Int :=
  let unsigned (n : Option Nat) : Option Int := do
    let n ← n
    if n < 0x8000000000000000 then some n else none
  match t with
  | 0x30 :: 0x78 :: ds => unsigned (do digits? 16 (← ungrouped? ds))
  | 0x30 :: 0x6F :: ds => unsigned (do digits? 8 (← ungrouped? ds))
  | 0x30 :: 0x62 :: ds => unsigned (do digits? 2 (← ungrouped? ds))
  | _ => do
    let (negative, digits) := signed t
    let n ← whole? digits
    if negative then (if n ≤ 0x8000000000000000 then some (-n : Int) else none) else unsigned (some n)

/-- Cuts a text in front of the first byte that is one of the given ones. -/
def cutAt (marks : List UInt8) (t : Text) : Text × Text :=
  (t.takeWhile (!marks.contains ·), t.dropWhile (!marks.contains ·))

/-- Whether a text spells a float: a whole part, and behind it a fraction or an exponent or both.
The number itself may not be too large. -/
def isFloat (t : Text) : Bool :=
  let (_, body) := signed t
  if body = ("inf" : Text) || body = ("nan" : Text) then true
  else
    let (mantissa, scale) := cutAt [0x65, 0x45] body
    let (whole, fraction) := cutAt [0x2E] mantissa
    let digits (t : Text) : Bool := ((ungrouped? t).bind (digits? 10)).isSome
    (!fraction.isEmpty || !scale.isEmpty)
      && (whole? whole).isSome
      && (fraction.isEmpty || digits (fraction.drop 1))
      && (scale.isEmpty || digits (signed (scale.drop 1)).2)
      && (Double.ofLiteral? (body.filter (· ≠ 0x5F))).isSome

/-! ## Dates and times -/

/-- A number of exactly `width` digits within bounds, and the rest. -/
def fixed? (width low high : Nat) (t : Text) : Option (Nat × Text) := do
  let n ← digits? 10 (t.take width)
  if (t.take width).length = width && low ≤ n && n ≤ high then some (n, t.drop width) else none

/-- The rest behind one byte. -/
def behind? (b : UInt8) : Text → Option Text
  | c :: t => if c = b then some t else none
  | [] => none

/-- The number of days of a month. -/
def daysIn (year month : Nat) : Nat :=
  if month = 2 then
    if year % 4 = 0 && (year % 100 ≠ 0 || year % 400 = 0) then 29 else 28
  else if [4, 6, 9, 11].contains month then 30 else 31

/-- The rest behind a date. -/
def date? (t : Text) : Option Text := do
  let (year, t) ← fixed? 4 0 9999 t
  let (month, t) ← fixed? 2 1 12 (← behind? 0x2D t)
  let (_, t) ← fixed? 2 1 (daysIn year month) (← behind? 0x2D t)
  return t

/-- The rest behind a time of day.  The hour may have one digit only. -/
def time? (t : Text) : Option Text := do
  let hour := (t.take 2).takeWhile isDigit
  let (_, t) ← fixed? (max 1 hour.length) 0 23 t
  let (_, t) ← fixed? 2 0 59 (← behind? 0x3A t)
  let (_, t) ← fixed? 2 0 59 (← behind? 0x3A t)
  match t with
  | 0x2E :: d :: r => return if isDigit d then r.dropWhile isDigit else t
  | _ => return t

/-- Whether a text is the distance from universal time. -/
def isOffset (t : Text) : Bool :=
  match t with
  | [0x5A] => true
  | sign :: t =>
    (sign = 0x2B || sign = 0x2D) && (do
      let (_, t) ← fixed? 2 0 24 t
      let (_, t) ← fixed? 2 0 60 (← behind? 0x3A t)
      return t) == some []
  | [] => false

/-- Whether a text spells a date, a time, or a date with a time and perhaps an offset.  A small
letter or a blank may stand for the letter between date and time. -/
def isMoment (t : Text) : Bool :=
  let t := t.map fun b => if b = 0x74 || b = 0x20 then 0x54 else if b = 0x7A then 0x5A else b
  match date? t with
  | some [] => true
  | some (0x54 :: r) =>
    match time? r with
    | some rest => rest.isEmpty || isOffset rest
    | none => false
  | some _ => false
  | none => time? t == some []

/-- A byte that can be part of a date with a time. -/
def isMomentByte (b : UInt8) : Bool :=
  isDigit b || [0x2D, 0x3A, 0x54, 0x74, 0x20, 0x2E, 0x5A, 0x7A, 0x2B].contains b

/-- Whether a text begins as a date or a time does: digits, then a dash or a colon.  A single zero
is a number of its own. -/
def beginsMoment (t : Text) : Bool :=
  let digits := t.takeWhile isDigit
  let next := (t.drop digits.length).head?
  !digits.isEmpty && digits ≠ ("0" : Text) && (next = some 0x2D || next = some 0x3A)

/-! ## Words -/

/-- The longest beginning of a text that consists of certain bytes. -/
def lexeme (p : UInt8 → Bool) (t : Text) : Text := t.takeWhile p

/-- The integer or float that begins a text with decimal digits, `sign` of whose bytes are a sign: it
takes all digits and underscores, and if a point or an exponent follows, all that can belong to a
float. -/
def decimal? (sign : Nat) (t : Text) : Option (Value × Text) :=
  let whole := t.take sign ++ lexeme (fun b => isDigit b || b = 0x5F) (t.drop sign)
  let isFraction (b : UInt8) : Bool := [0x2E, 0x65, 0x45].contains b
  if ((t.drop whole.length).head?.map isFraction).getD false then
    let spelling :=
      lexeme (fun b => isDigit b || isFraction b || b = 0x5F || b = 0x2B || b = 0x2D) t
    if isFloat spelling then some (.float spelling, t.drop spelling.length) else none
  else (integer? whole).map fun n => (.integer n, t.drop whole.length)

/-- The integer in another base that begins a text, behind a zero and a letter. -/
def based? (base : Nat) (t : Text) : Option (Value × Text) :=
  let isOwn (b : UInt8) : Bool := (digit? base b).isSome
  let spelling := t.take 2 ++ lexeme (fun b => isOwn b || b = 0x5F) (t.drop 2)
  if ((t.drop 2).head?.map isOwn).getD false then
    (integer? spelling).map fun n => (.integer n, t.drop spelling.length)
  else none

/-- The date or time that begins a text.  It may hold a blank. -/
def moment? (t : Text) : Option (Value × Text) :=
  let found := lexeme isMomentByte t
  let spelling := (found.reverse.dropWhile (· = 0x20)).reverse
  if isMoment spelling then some (.moment spelling, t.drop found.length) else none

/-- The number, date or time that begins a text with a digit or a sign. -/
def number? (t : Text) : Option (Value × Text) :=
  match t with
  | 0x30 :: 0x62 :: _ => based? 2 t
  | 0x30 :: 0x6F :: _ => based? 8 t
  | 0x30 :: 0x78 :: _ => based? 16 t
  | b :: _ =>
    if isDigit b then if beginsMoment t then moment? t else decimal? 0 t
    else match t with
      | _ :: 0x30 :: c :: _ => if [0x62, 0x6F, 0x78].contains c then none else decimal? 1 t
      | _ :: d :: _ => if isDigit d then decimal? 1 t else none
      | _ => none
  | [] => none

/-- Whether a letter follows. -/
def beginsWithLetter (t : Text) : Bool :=
  match t with
  | b :: rest => Text.isLetter (Text.glyphAt b rest).1.code
  | [] => false

/-- The truth value that begins a text. -/
def truth? (t : Text) : Option (Value × Text) :=
  let named (name : Text) (value : Bool) : Option (Value × Text) :=
    let rest := t.drop name.length
    if name.isPrefixOf t && !beginsWithLetter rest then some (.bool value, rest) else none
  (named "true" true).or (named "false" false)

/-- The spellings of infinity and of what is no number. -/
def specialFloats : List Text := ["inf", "nan", "+inf", "+nan", "-inf", "-nan"]

/-- The value that begins a text and is neither quoted nor in brackets, and the rest.  Only the
special floats are known to end before it is seen what follows. -/
def word? (t : Text) : Option (Value × Text) :=
  match specialFloats.find? (·.isPrefixOf t) with
  | some spelling => some (.float spelling, t.drop spelling.length)
  | none => do
    let isNumeric (b : UInt8) : Bool := isDigit b || b = 0x2B || b = 0x2D
    let (v, rest) ← if (t.head?.map isNumeric).getD false then number? t else truth? t
    if isCut rest then none else some (v, rest)

/-! ## Quoted texts -/

/-- A byte that ends a line. -/
def isNewline (b : UInt8) : Bool := b = 0x0A || b = 0x0D

/-- A byte that may stand between the parts of a line. -/
def isSpace (b : UInt8) : Bool := b = 0x20 || b = 0x09

/-- The bytes up to the closing mark of a quoted text on one line, and the rest.  With escapes, a
byte behind a backslash never closes it. -/
def closing? (mark : UInt8) (escapes : Bool) : Text → Option (Text × Text)
  | [] => none
  | b :: t =>
    if b = mark then some ([], t)
    else if isNewline b then none
    else if escapes && b = 0x5C then
      match t with
      | [] => none
      | c :: t => if isNewline c then none else (closing? mark escapes t).map fun (s, r) => (b :: c :: s, r)
    else (closing? mark escapes t).map fun (s, r) => (b :: s, r)

/-- The bytes up to the three closing marks of a quoted text on several lines, and the rest.  Up to
two marks may stand right in front of the closing ones, and three behind a backslash that is
escaped; `most` is the number of marks that may follow each other here.  The reader looks at what
follows the marks; an unreadable place there makes it lose its own if the text is `empty`. -/
def closingThree (mark : UInt8) (escapes : Bool) :
    (empty : Bool) → (most : Nat) → Text → Except Failure (Text × Text)
  | _, _, [] => .error .malformed
  | empty, most, b :: t =>
    if escapes && b = 0x5C then
      match t with
      | [] => .error .malformed
      | c :: t => do
        let (s, r) ← closingThree mark escapes false (if c = 0x5C then 6 else 5) t
        return (b :: c :: s, r)
    else
      let run := if b = mark then 1 + (t.takeWhile (· = mark)).length else 0
      let rest := t.drop (run - 1)
      if run < 3 then do
        let (s, r) ← closingThree mark escapes false 5 t
        return (b :: s, r)
      else if most < run then .error .malformed
      else if isCut rest then .error (if empty && run = 3 then .lost else .malformed)
      else .ok (List.replicate (run - 3) mark, rest)

/-- The byte that a letter behind a backslash stands for. -/
def escape? : UInt8 → Option UInt8
  | 0x62 => some 0x08
  | 0x74 => some 0x09
  | 0x6E => some 0x0A
  | 0x66 => some 0x0C
  | 0x72 => some 0x0D
  | 0x22 => some 0x22
  | 0x5C => some 0x5C
  | _ => none

/-- The bytes of the character with a given hexadecimal code point. -/
def codePoint? (digits : Text) : Option Text := do
  let n ← digits? 16 digits
  if n < 0xD800 || (0xE000 ≤ n && n < 0x110000) then some (Text.encode n) else none

/-- Replaces the escapes of a quoted text. -/
def unescape? : Text → Option Text
  | [] => some []
  | 0x5C :: 0x75 :: a :: b :: c :: d :: t => do
    return (← codePoint? [a, b, c, d]) ++ (← unescape? t)
  | 0x5C :: 0x55 :: a :: b :: c :: d :: e :: f :: g :: h :: t => do
    return (← codePoint? [a, b, c, d, e, f, g, h]) ++ (← unescape? t)
  | 0x5C :: b :: t => do return (← escape? b) :: (← unescape? t)
  | b :: t => if b = 0x5C then none else do return b :: (← unescape? t)

/-- Whether nothing but blanks is left of the line. -/
def lineEnds (t : Text) : Bool := ((t.dropWhile isSpace).head?.map isNewline).getD false

/-- Removes every backslash at the end of a line together with all blanks and newlines behind it.
`skipping` says that such blanks are being left out. -/
def joinLines (skipping : Bool) : Text → Text
  | [] => []
  | b :: t =>
    if skipping && (isSpace b || isNewline b) then joinLines true t
    else if b = 0x5C then
      match t with
      | 0x5C :: t => b :: 0x5C :: joinLines false t
      | t => if lineEnds t then joinLines true t else b :: joinLines false t
    else b :: joinLines false t

/-- The text without a newline at its beginning. -/
def dropNewline : Text → Text
  | 0x0A :: t => t
  | 0x0D :: 0x0A :: t => t
  | t => t

/-- A text between double quotes, given what is behind the first of them. -/
def basic : Text → Except Failure (Text × Text)
  | 0x22 :: 0x22 :: t => do
    let (s, r) ← closingThree 0x22 true true 5 t
    return (← orMalformed (unescape? (joinLines false (dropNewline s))), r)
  | t => do
    let (s, r) ← orMalformed (closing? 0x22 true t)
    return (← orMalformed (unescape? s), r)

/-- A text between single quotes, given what is behind the first of them; it has no escapes. -/
def raw : Text → Except Failure (Text × Text)
  | 0x27 :: 0x27 :: t => do
    let (s, r) ← closingThree 0x27 false true 5 t
    return (dropNewline s, r)
  | t => orMalformed (closing? 0x27 false t)

end AisScript.Toml
