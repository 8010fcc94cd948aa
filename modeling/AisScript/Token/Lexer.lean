import AisScript.Token
import AisScript.Diagnostic
import AisScript.Text.Quoted
import AisScript.Text.Normal

/-!
# Lexing

A source is cut into tokens from left to right.  Blanks and `#` comments separate tokens and carry
no meaning; anything else belongs to exactly one token, and what fits no token is an invalid token
with a diagnostic of its own.  A token consists of its first byte and of `extra` further ones, so
every step consumes something and the input is used up after finitely many steps.

* `scanHead`        what begins with a given byte, with its diagnostics
* `lexemes`         all tokens of a text, the end mark included
* `Scanner`         tokens on demand, with one token of lookahead
-/

namespace AisScript

open Text (byte isDigit)

/-! ## Bytes of words and numbers -/

/-- A byte that begins an ASCII name. -/
def isNameStart (b : UInt8) : Bool :=
  b == 0x5F || (0x41 ≤ b && b ≤ 0x5A) || (0x61 ≤ b && b ≤ 0x7A)

/-- A byte that continues an ASCII name. -/
def isNameByte (b : UInt8) : Bool := isNameStart b || isDigit b

/-- A hexadecimal digit. -/
def isHexDigit (b : UInt8) : Bool :=
  isDigit b || (0x61 ≤ b && b ≤ 0x66) || (0x41 ≤ b && b ≤ 0x46)

/-- The value of a hexadecimal digit. -/
def hexValue (b : UInt8) : UInt8 :=
  if isDigit b then b - 0x30 else if 0x61 ≤ b then b - 0x61 + 10 else b - 0x41 + 10

/-- A code point that continues a name: a letter, a decimal digit, a mark or the underscore. -/
def isNameChar (code : Nat) : Bool :=
  code == 0x5F || Text.isLetter code || Text.isDecimalDigit code || Text.isMark code

/-- A blank byte. -/
def isBlank (b : UInt8) : Bool := b == 0x20 || (0x09 ≤ b && b ≤ 0x0D)

/-- The number of bytes in front of the next token: blanks, and comments up to their newline. -/
def gapLength : (inComment : Bool) → Text → Nat
  | _, [] => 0
  | true, b :: t => if b = 0x0A then gapLength false (b :: t) else gapLength true t + 1
  | false, b :: t =>
    if isBlank b then gapLength false t + 1
    else if b = byte '#' then gapLength true t + 1
    else 0
termination_by inComment t => (t.length, if inComment then 1 else 0)

/-! ## Single tokens -/

/-- A token together with what was reported while it was read. -/
structure Lexeme where
  token : Token
  reports : List Diagnostic := []
deriving DecidableEq, Repr

/-- What stands at the head of a text: the kind, the number of bytes after the first, the contents
where they differ from the bytes themselves, and the reports. -/
structure Scanned where
  kind : Token.Kind
  extra : Nat
  contents : Option Text := none
  reports : List Diagnostic := []
deriving DecidableEq, Repr

/-- A place in the source where a token begins. -/
structure Place where
  file : Nat
  offset : Nat
deriving DecidableEq, Repr

/-- The span of `length` bytes from a place on. -/
def Place.span (p : Place) (length : Nat) : Span := ⟨p.file, p.offset, p.offset + length⟩

/-- A malformed token of `1 + extra` bytes and the report that says so. -/
def Scanned.bad (p : Place) (code : Code) (extra : Nat) (message : Text) : Scanned :=
  { kind := .invalid, extra,
    reports := [{ code, span := p.span (1 + extra), message }] }

/-- The number of bytes at the head of a text that continue a name. -/
def nameLength : Text → Nat
  | [] => 0
  | b :: t =>
    if b < 0x80 then
      if isNameByte b then 1 + nameLength t else 0
    else
      let (g, more) := Text.glyphAt b t
      if isNameChar g.code then 1 + more + nameLength (t.drop more) else 0
termination_by t => t.length
decreasing_by all_goals simp only [List.length_drop, List.length_cons]; omega

/-- A name or keyword.  A character beyond ASCII that is no letter begins no name. -/
def scanName (p : Place) (b : UInt8) (t : Text) : Scanned :=
  let (g, more) := Text.glyphAt b t
  if 0x80 ≤ b && !(Text.isLetter g.code) then
    .bad p .unknownChar more ("unknown character " ++ Text.quoteChar g.code)
  else
    let extra := more + nameLength (t.drop more)
    let name := Text.compose (b :: t.take extra)
    match Keyword.ofSpelling? name with
    | some k => { kind := .keyword k, extra, contents := some name }
    | none => { kind := .ident, extra, contents := some name }

/-- The end of a number of `1 + extra` bytes: name characters must not be glued to it. -/
def finishNumber (p : Place) (kind : Token.Kind) (extra : Nat) (t : Text) : Scanned :=
  match (t.drop extra).takeWhile isNameByte with
  | [] => { kind, extra }
  | glued => .bad p .badNumber (extra + glued.length) "invalid character in number"

/-- The exponent of a number of `1 + extra` bytes, if it has one. -/
def scanExponent (p : Place) (kind : Token.Kind) (extra : Nat) (t : Text) : Scanned :=
  match t.drop extra with
  | e :: rest =>
    if e = byte 'e' || e = byte 'E' then
      let sign := match rest with
        | s :: _ => if s = byte '+' || s = byte '-' then 1 else 0
        | [] => 0
      match (rest.drop sign).takeWhile isDigit with
      | [] => .bad p .badNumber (extra + 1) "expected digit after exponent"
      | digits => finishNumber p .float (extra + 1 + sign + digits.length) t
    else finishNumber p kind extra t
  | [] => finishNumber p kind extra t

/-- A number: decimal with optional fraction and exponent, or hexadecimal.  A point belongs to the
number only when a digit follows it. -/
def scanNumber (p : Place) (b : UInt8) (t : Text) : Scanned :=
  let isHex := match t with
    | x :: _ => b = byte '0' && (x = byte 'x' || x = byte 'X')
    | [] => false
  if isHex then
    match (t.drop 1).takeWhile isHexDigit with
    | [] => .bad p .badNumber 1 "expected hex digit after '0x'"
    | digits => finishNumber p .int (1 + digits.length) t
  else
    let whole := (t.takeWhile isDigit).length
    match t.drop whole with
    | point :: d :: rest =>
      if point = byte '.' && isDigit d then
        scanExponent p .float (whole + 2 + (rest.takeWhile isDigit).length) t
      else scanExponent p .int whole t
    | _ => scanExponent p .int whole t

/-- The byte meant by a one-character escape. -/
def simpleEscape (b : UInt8) : Option UInt8 :=
  if b = byte 'n' then some 0x0A
  else if b = byte 't' then some 0x09
  else if b = byte 'r' then some 0x0D
  else if b = byte '0' then some 0
  else if b = 0x5C || b = 0x22 || b = 0x27 then some b
  else none

/-- How the body of a string literal ends. -/
inductive StringEnd where
  | closed
  | newline
  | endOfInput
deriving DecidableEq, Repr

/-- The body of a string literal behind its opening quote: the decoded bytes, the number of bytes
read (the closing quote included), the reports and the way it ends.  `offset` is where the body
begins. -/
structure StringBody where
  bytes : Text := []
  size : Nat := 0
  reports : List Diagnostic := []
  ending : StringEnd
deriving DecidableEq, Repr

namespace StringBody

/-- The body with one more decoded byte, written with `size` bytes, in front. -/
def push (b : UInt8) (size : Nat) (rest : StringBody) : StringBody :=
  { rest with bytes := b :: rest.bytes, size := size + rest.size }

/-- The body with a malformed escape of `size` bytes in front; it decodes to nothing. -/
def reject (p : Place) (size : Nat) (message : Text) (rest : StringBody) : StringBody :=
  { rest with
    size := size + rest.size
    reports := { code := .badEscape, span := p.span size, message } :: rest.reports }

/-- Reads a body up to its closing quote, its line's end or the end of the input. -/
def read (quote : UInt8) (file : Nat) : (offset : Nat) → Text → StringBody
  | _, [] => { ending := .endOfInput }
  | o, b :: t =>
    if b = quote then { size := 1, ending := .closed }
    else if b = 0x0A then { ending := .newline }
    else if b = 0x5C then
      match t with
      | [] => reject ⟨file, o⟩ 1 "unknown escape sequence" { ending := .endOfInput }
      | c :: t₁ =>
        if c = byte 'x' then
          match t₁ with
          | [] => reject ⟨file, o⟩ 2 "\\x expects two hex digits" { ending := .endOfInput }
          | hi :: t₂ =>
            if isHexDigit hi then
              match t₂ with
              | [] => reject ⟨file, o⟩ 3 "\\x expects two hex digits" { ending := .endOfInput }
              | lo :: t₃ =>
                if isHexDigit lo then
                  push (hexValue hi * 16 + hexValue lo) 4 (read quote file (o + 4) t₃)
                else reject ⟨file, o⟩ 3 "\\x expects two hex digits" (read quote file (o + 3) (lo :: t₃))
            else reject ⟨file, o⟩ 2 "\\x expects two hex digits" (read quote file (o + 2) (hi :: t₂))
        else match simpleEscape c with
          | some v => push v 2 (read quote file (o + 2) t₁)
          | none => reject ⟨file, o⟩ 2 "unknown escape sequence" (read quote file (o + 2) t₁)
    else push b 1 (read quote file (o + 1) t)
termination_by _ t => t.length
decreasing_by all_goals simp only [List.length_cons]; omega

end StringBody

/-- A string literal; its contents are decoded and in composed canonical form. -/
def scanString (p : Place) (quote : UInt8) (t : Text) : Scanned :=
  let body := StringBody.read quote p.file (p.offset + 1) t
  let failed (message : Text) : Scanned :=
    { kind := .invalid, extra := body.size,
      reports := body.reports ++
        [{ code := .unterminatedString, span := p.span (1 + body.size), message }] }
  match body.ending with
  | .closed => { kind := .string, extra := body.size, contents := some (Text.compose body.bytes),
                 reports := body.reports }
  | .newline => failed "newline in string literal"
  | .endOfInput => failed "unterminated string literal"

/-- The byte that opens and closes a code literal. -/
def codeMark : UInt8 := 0x60

/-- A code literal: everything up to the next mark, newlines included, with no escapes. -/
def scanCode (p : Place) (t : Text) : Scanned :=
  let body := t.takeWhile (· ≠ codeMark)
  if body.length < t.length then
    { kind := .code, extra := body.length + 1, contents := some body }
  else .bad p .unterminatedCode body.length "unterminated code literal"

/-- An operator or punctuation mark: two bytes if they spell one, else one byte. -/
def scanSymbol (p : Place) (b : UInt8) (t : Text) : Scanned :=
  let two := match t with
    | c :: _ => Symbol.ofSpelling? [b, c]
    | [] => none
  match two with
  | some s => { kind := .symbol s, extra := 1 }
  | none => match Symbol.ofSpelling? [b] with
    | some s => { kind := .symbol s, extra := 0 }
    | none => .bad p .unknownChar 0 ("unknown character " ++ Text.quoteChar b.toNat)

/-- What begins with the byte `b` at place `p`; `t` is the text behind `b`. -/
def scanHead (p : Place) (b : UInt8) (t : Text) : Scanned :=
  if isNameStart b || 0x80 ≤ b then scanName p b t
  else if isDigit b then scanNumber p b t
  else if b = 0x22 || b = 0x27 then scanString p b t
  else if b = codeMark then scanCode p t
  else scanSymbol p b t

/-- The token that begins with the byte `b` at place `p`, with its reports. -/
def Lexeme.ofScanned (p : Place) (b : UInt8) (t : Text) (s : Scanned) : Lexeme :=
  { token :=
      { kind := s.kind
        span := p.span (1 + s.extra)
        text := s.contents.getD (b :: t.take s.extra) }
    reports := s.reports }

/-- The mark behind the last token. -/
def Lexeme.endMark (p : Place) : Lexeme := { token := { kind := .eof, span := p.span 0, text := [] } }

/-! ## Whole texts -/

/-- Reads one token: the lexeme, the place behind it and the text that is left. -/
def scanNext (p : Place) (t : Text) : Lexeme × Place × Text :=
  let gap := gapLength false t
  let start : Place := { p with offset := p.offset + gap }
  match t.drop gap with
  | [] => (.endMark start, start, [])
  | b :: rest =>
    let s := scanHead start b rest
    (.ofScanned start b rest s, { start with offset := start.offset + 1 + s.extra },
      rest.drop s.extra)

/-- The tokens of a text that begins at place `p`, with the end mark last. -/
def lexemesFrom (p : Place) (t : Text) : List Lexeme :=
  let gap := gapLength false t
  let start : Place := { p with offset := p.offset + gap }
  match _h : t.drop gap with
  | [] => [.endMark start]
  | b :: rest =>
    let s := scanHead start b rest
    .ofScanned start b rest s ::
      lexemesFrom { start with offset := start.offset + 1 + s.extra } (rest.drop s.extra)
termination_by t.length
decreasing_by
  have h : (t.drop gap).length = (b :: rest).length := by rw [_h]
  simp only [List.length_drop, List.length_cons] at h ⊢
  omega

/-- The tokens of a file's contents. -/
def lexemes (file : Nat) (contents : Text) : List Lexeme := lexemesFrom ⟨file, 0⟩ contents

/-! ## Tokens on demand -/

/-- A reader of tokens: where it stands, what is left, and the token it has looked at but not yet
handed out. -/
structure Scanner where
  place : Place
  rest : Text
  ahead : Option Token := none
deriving DecidableEq, Repr

namespace Scanner

/-- A scanner at the beginning of a file's contents. -/
def start (file : Nat) (contents : Text) : Scanner := { place := ⟨file, 0⟩, rest := contents }

/-- Hands out the next token, with the reports it caused just now.  The end mark repeats. -/
def next (s : Scanner) : Lexeme × Scanner :=
  match s.ahead with
  | some tok => ({ token := tok }, { s with ahead := none })
  | none =>
    let (l, place, rest) := scanNext s.place s.rest
    (l, { place, rest })

/-- Looks at the next token without handing it out. -/
def peek (s : Scanner) : Lexeme × Scanner :=
  let (l, s') := s.next
  (l, { s' with ahead := some l.token })

/-- Hands out everything up to and including the end mark. -/
def drain (s : Scanner) : List Lexeme × Scanner :=
  let rest := lexemesFrom s.place s.rest
  let place : Place := match rest.getLast? with
    | some l => { s.place with offset := l.token.span.stop }
    | none => s.place
  match s.ahead with
  | some tok =>
    if tok.kind = .eof then ([{ token := tok }], { s with ahead := none })
    else ({ token := tok } :: rest, { place, rest := [] })
  | none => (rest, { place, rest := [] })

end Scanner

end AisScript
