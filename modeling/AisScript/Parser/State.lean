import AisScript.Token.Lexer
import AisScript.Tree

/-!
# The parser's state

The parser reads lexemes one by one and looks at one ahead of those it has consumed.  What the lexer
had to say about a lexeme is reported when the parser first looks at it, so that lexical and
syntactic diagnostics come in the order in which they are found.  A step may fail; what it has
consumed and reported stays.

* `Parser`                      a step: a result or failure, and the new state
* `peek`, `advance`, `expect`   reading tokens
* `report`                      a syntax error, unless there are too many already
-/

namespace AisScript

/-- Where the parser stands. -/
structure ParseState where
  /-- The lexemes that are not consumed yet. -/
  ahead : List Lexeme
  /-- Whether the reports of the first of them were passed on. -/
  seen : Bool := false
  /-- The place of the last consumed token. -/
  last : Span
  /-- The number of syntax errors found, and the number that is reported at most; zero means no
  limit. -/
  errors : Nat := 0
  maxErrors : Nat := 0
  /-- All reports, the latest first. -/
  reports : List Diagnostic := []

/-- A step of the parser.  It may fail and keeps its state all the same. -/
abbrev Parser (α : Type) := OptionT (StateM ParseState) α

namespace Parser

/-- The step's result as an option; this never fails. -/
def attempt {α : Type} (p : Parser α) : Parser (Option α) :=
  OptionT.mk do
    let r ← p.run
    pure (some r)

/-- The token that is read when there is nothing left. -/
def endToken (last : Span) : Token := { kind := .eof, span := .point last.file last.stop, text := [] }

/-- The next token; its lexical reports are passed on the first time. -/
def peek : Parser Token := do
  let s ← get
  match s.ahead with
  | [] => pure (endToken s.last)
  | l :: _ =>
    if s.seen then pure l.token
    else
      set { s with seen := true, reports := l.reports.reverse ++ s.reports }
      pure l.token

/-- The kind of the next token. -/
def peekKind : Parser Token.Kind := do
  let t ← peek
  pure t.kind

/-- Whether the next token has a given kind. -/
def atKind (k : Token.Kind) : Parser Bool := do
  let k' ← peekKind
  pure (k' == k)

/-- Whether the next token is a given keyword. -/
def atKeyword (k : Keyword) : Parser Bool := atKind (.keyword k)

/-- Whether the next token is a given symbol. -/
def atSymbol (s : Symbol) : Parser Bool := atKind (.symbol s)

/-- Consumes the next token; the end mark is never consumed. -/
def advance : Parser Token := do
  let t ← peek
  if t.kind = .eof then pure t
  else
    modify fun s => { s with ahead := s.ahead.tail, seen := false, last := t.span }
    pure t

/-- The place of the last consumed token. -/
def lastSpan : Parser Span := do
  let s ← get
  pure s.last

/-- Counts a syntax error, and reports it while the limit is not reached. -/
def report (code : Code) (span : Span) (message : Text) (notes : List Note := []) : Parser Unit :=
  modify fun s =>
    if s.maxErrors ≠ 0 ∧ s.maxErrors ≤ s.errors then { s with errors := s.errors + 1 }
    else
      { s with
        errors := s.errors + 1
        reports := { code, span, message, notes } :: s.reports }

/-- Where to report a problem with the next token: at the token, or behind the last consumed one if
the input is over. -/
def problemSpan : Parser Span := do
  let t ← peek
  let last ← lastSpan
  if t.kind = .eof ∧ 0 < last.stop then pure (.point last.file last.stop) else pure t.span

/-- Reports a problem with the next token. -/
def complain (code : Code) (message : Text) : Parser Unit := do
  let span ← problemSpan
  report code span message

/-- Reports a problem with the next token and fails. -/
def reject {α : Type} (code : Code) (message : Text) : Parser α := do
  complain code message
  failure

/-- Consumes a token of the given kind, or reports that it is missing and fails. -/
def expect (k : Token.Kind) (code : Code) (message : Text) : Parser Token := do
  if ← atKind k then advance else reject code message

/-- Consumes a name. -/
def expectName (message : Text) : Parser Token := expect .ident .expectIdentifier message

/-- Consumes a symbol. -/
def expectSymbol (s : Symbol) (code : Code) (message : Text) : Parser Token :=
  expect (.symbol s) code message

/-- Consumes the `end` of a construct that was opened at `opened`. -/
def expectEnd (what : Text) (opened : Span) : Parser Unit := do
  if ← atKeyword .endKw then
    let _ ← advance
  else
    let span ← problemSpan
    report .expectEnd span ("expected 'end' to close " ++ what) [⟨opened, what ++ " starts here"⟩]
    failure

/-- How a token is called in messages. -/
def describe (t : Token) : Text :=
  match t.kind with
  | .eof => "end of file"
  | .string => "string literal"
  | .code => "code literal"
  | _ => "'" ++ t.text ++ "'"

/-- The value of hexadecimal or decimal digits. -/
def digitsValue (base : Nat) (digits : Text) : Nat :=
  digits.foldl (fun n b => n * base + (hexValue b).toNat) 0

/-- The value of an integer literal, unless it exceeds the largest 64-bit integer. -/
def intValue? (t : Text) : Option Int64 :=
  let n := match t with
    | 0x30 :: x :: digits =>
      if x = 0x78 || x = 0x58 then digitsValue 16 digits else digitsValue 10 t
    | _ => digitsValue 10 t
  if n < 0x8000000000000000 then some (Int64.ofNat n) else none

end Parser

end AisScript
