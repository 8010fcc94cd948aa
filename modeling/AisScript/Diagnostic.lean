import AisScript.Source.Span

/-!
# Diagnostics

A diagnostic is a message at a place of the source, with a severity that decides whether the unit
fails and a code that names its cause.  Notes point at further places.
-/

namespace AisScript

/-- How grave a diagnostic is, by rank.  Three ranks have names; a higher one is unknown and halts. -/
structure Severity where
  rank : Nat
deriving DecidableEq, Repr, Inhabited

namespace Severity

/-- Observations such as timings. -/
def info : Severity := ⟨0⟩
/-- Reported without failing the unit. -/
def warning : Severity := ⟨1⟩
/-- Fails the unit. -/
def error : Severity := ⟨2⟩

/-- The name written in reports. -/
def name (s : Severity) : Text :=
  match s.rank with
  | 0 => "INFO"
  | 1 => "WARNING"
  | 2 => "ERROR"
  | _ => "UNKNOWN"

/-- Whether a diagnostic of this severity fails the unit. -/
def halts (s : Severity) : Bool := error.rank ≤ s.rank

end Severity

/-- The number of a cause.  The thousands tell the stage: lexical, syntactic, semantic, input and
output, project, observation. -/
structure Code where
  number : Nat
deriving DecidableEq, Repr, Inhabited

namespace Code

def unknown : Code := ⟨0⟩
def unknownChar : Code := ⟨1001⟩
def unterminatedString : Code := ⟨1002⟩
def unterminatedCode : Code := ⟨1003⟩
def badNumber : Code := ⟨1004⟩
def badEscape : Code := ⟨1005⟩
def unexpectedToken : Code := ⟨2001⟩
def expectExpression : Code := ⟨2002⟩
def expectIdentifier : Code := ⟨2003⟩
def expectEnd : Code := ⟨2004⟩
def unclosedParen : Code := ⟨2005⟩
def unclosedBracket : Code := ⟨2006⟩
def expectNumber : Code := ⟨2007⟩
def misplacedReturn : Code := ⟨2008⟩
def enumOrder : Code := ⟨2009⟩
def bitfieldWidth : Code := ⟨2010⟩
def expectString : Code := ⟨2011⟩
def badAssignTarget : Code := ⟨2012⟩
def undefinedVariable : Code := ⟨3001⟩
def undefinedType : Code := ⟨3002⟩
def incompatibleType : Code := ⟨3003⟩
def notCallable : Code := ⟨3004⟩
def invalidExpression : Code := ⟨3005⟩
def immutability : Code := ⟨3006⟩
def lookupFailure : Code := ⟨3007⟩
def internal : Code := ⟨3099⟩
def unreadableFile : Code := ⟨4001⟩
def requireNotFound : Code := ⟨5001⟩
def requireTopLevel : Code := ⟨5002⟩
def timings : Code := ⟨6001⟩

/-- The short name: three letters of the stage and the number. -/
def id (c : Code) : Text :=
  let numbered (stage : Text) : Text := stage ++ Text.padded 4 10 c.number
  match c.number / 1000 with
  | 1 => numbered "LEX"
  | 2 => numbered "SYN"
  | 3 => numbered "SEM"
  | 4 => numbered "IO"
  | 5 => numbered "PRJ"
  | 6 => numbered "OBS"
  | _ => "E0000"

/-- What the code stands for; a number that stands for nothing reads as an unknown error. -/
def title (c : Code) : Text :=
  match c.number with
  | 1000 => "Lexical information"
  | 1001 => "Unknown character"
  | 1002 => "Unterminated string"
  | 1003 => "Unterminated code literal"
  | 1004 => "Bad number"
  | 1005 => "Bad escape sequence"
  | 2000 => "Syntax information"
  | 2001 => "Unexpected token"
  | 2002 => "Expect expression"
  | 2003 => "Expect identifier"
  | 2004 => "Expect 'end'"
  | 2005 => "Unclosed parenthesis"
  | 2006 => "Unclosed bracket"
  | 2007 => "Expect integer"
  | 2008 => "Misplaced return"
  | 2009 => "Enum values must increase"
  | 2010 => "Invalid bitfield width"
  | 2011 => "Expect string"
  | 2012 => "Invalid assignment target"
  | 3000 => "Semantic information"
  | 3001 => "Undefined variable"
  | 3002 => "Undefined type"
  | 3003 => "Incompatible type"
  | 3004 => "Not callable"
  | 3005 => "Invalid expression"
  | 3006 => "Immutability violation"
  | 3007 => "Lookup failure"
  | 3099 => "Internal compiler error"
  | 4001 => "Failed to load file"
  | 4002 => "Failed to write file"
  | 5000 => "Project information"
  | 5001 => "Required file not found"
  | 5002 => "Top-level code in required file"
  | 5003 => "Invalid project manifest"
  | 6000 => "Observability information"
  | 6001 => "Pipeline timings"
  | _ => "Unknown error"

/-- `[ID]: title`. -/
def render (c : Code) : Text := "[" ++ c.id ++ "]: " ++ c.title

end Code

/-- A further place that explains a diagnostic. -/
structure Note where
  span : Span
  message : Text
deriving DecidableEq, Repr

/-- A message at a place of the source. -/
structure Diagnostic where
  severity : Severity := .error
  code : Code
  span : Span
  message : Text
  notes : List Note := []
deriving DecidableEq, Repr

end AisScript
