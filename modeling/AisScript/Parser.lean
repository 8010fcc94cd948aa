import AisScript.Parser.Stmt
import AisScript.Source.File

/-!
# Parsing a file

The whole input is read: an input that is no program gives the statements that could be read and the
reports of what could not.
-/

namespace AisScript

/-- What parsing a file gives. -/
structure Parsed where
  /-- The program, as far as it could be read. -/
  program : Block
  /-- The number of syntax errors, those beyond the limit included; lexical errors do not count. -/
  errors : Nat
  /-- Lexical and syntactic reports in the order in which they were found. -/
  reports : List Diagnostic

/-- A block at top level, and the place from the first token to the end of the input. -/
def Parser.program (steps : Nat) : Parser Block := do
  let first ← peek
  let body ← block steps false []
  let last ← peek
  pure (body.withSpan (first.span.cover last.span))

/-- Parses the lexemes of a file.  At most `maxErrors` syntax errors are reported; zero means no
limit. -/
def parseLexemes (file maxErrors : Nat) (ls : List Lexeme) : Parsed :=
  let start : ParseState := { ahead := ls, last := { file := file }, maxErrors }
  match (Parser.program (Parser.stepsFor ls.length)).run start with
  | (some program, s) => ⟨program, s.errors, s.reports.reverse⟩
  | (none, s) => ⟨.mk [] [] { file := file }, s.errors, s.reports.reverse⟩

/-- Parses the contents of a file. -/
def parse (file maxErrors : Nat) (contents : Text) : Parsed :=
  parseLexemes file maxErrors (lexemes file contents)

end AisScript
