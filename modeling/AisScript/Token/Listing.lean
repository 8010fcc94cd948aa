import AisScript.Token.Lexer
import AisScript.Source.File
import AisScript.Text.Quoted
import AisScript.Text.Json

/-!
# Token listings

The tokens of a file up to the end of input, numbered for a reader or as JSON for a program.
-/

namespace AisScript.Token

/-- The tokens up to and including the first end of input. -/
def upToEnd : List Token → List Token
  | [] => []
  | t :: ts => if t.kind = .eof then [t] else t :: upToEnd ts

/-- One line of a listing: number, kind, text if there is any, and where the token stands. -/
def listed (breaks : List Nat) (number : Nat) (t : Token) : Text :=
  let first := Source.position breaks t.span.start
  let last := Source.position breaks t.span.stop
  let place (p : Source.Position) : Text := Text.ofNat p.line ++ ":" ++ Text.ofNat p.column
  (Text.ofNat number).flushRight 3 ++ ": " ++ t.kind.name.flushLeft 15
    ++ (if t.text.isEmpty then [] else 0x20 :: t.text.quote)
    ++ " at " ++ place first ++ "-" ++ place last ++ "\n"

/-- The tokens of one file, a numbered line each. -/
def listing (file : SourceFile) (tokens : List Token) : Text :=
  let breaks := file.newlines
  ((upToEnd tokens).zipIdx 1).flatMap fun (t, n) => listed breaks n t

/-- A token as JSON; an empty text is left out. -/
def toJson (t : Token) : Json :=
  .record ([Json.member "kind" (.text t.kind.name)]
    ++ (if t.text.isEmpty then [] else [Json.member "text" (.text t.text)])
    ++ [Json.member "span" (.record [("File", .number t.span.file), ("Start", .number t.span.start),
      ("End", .number t.span.stop)])])

/-- The tokens as a JSON list. -/
def jsonListing (tokens : List Token) : Text := (Json.list ((upToEnd tokens).map toJson)).indented

end AisScript.Token
