import AisScript.Source.Span

/-!
# Tokens

The words of a script: names, literals, keywords and symbols, each with its place.  Keywords and
symbols know their spelling; the lexer reads both from these tables.

* `Keyword.spelling`, `Symbol.spelling`   how a keyword or symbol is written
* `Token.Kind.name`                       how a kind is called in listings
-/

namespace AisScript

/-- The reserved words. -/
inductive Keyword where
  | ifKw | elifKw | elseKw | whileKw | forKw | endKw | andKw | orKw | notKw | defKw | returnKw | breakKw
  | bitfieldKw | enumKw | requireKw | queryKw | whereKw
deriving DecidableEq, Repr

namespace Keyword

/-- Every keyword, in order of declaration. -/
def all : List Keyword :=
  [.ifKw, .elifKw, .elseKw, .whileKw, .forKw, .endKw, .andKw, .orKw, .notKw, .defKw, .returnKw, .breakKw,
    .bitfieldKw, .enumKw, .requireKw, .queryKw, .whereKw]

/-- How the keyword is written. -/
def spelling : Keyword → Text
  | .ifKw => "if" | .elifKw => "elif" | .elseKw => "else" | .whileKw => "while" | .forKw => "for"
  | .endKw => "end" | .andKw => "and" | .orKw => "or" | .notKw => "not" | .defKw => "def"
  | .returnKw => "return" | .breakKw => "break" | .bitfieldKw => "bitfield" | .enumKw => "enum"
  | .requireKw => "require" | .queryKw => "query" | .whereKw => "where"

/-- The keyword with a given spelling. -/
def ofSpelling? (t : Text) : Option Keyword := all.find? (·.spelling == t)

/-- The keyword's name in listings. -/
def name : Keyword → Text
  | .ifKw => "KwIf" | .elifKw => "KwElif" | .elseKw => "KwElse" | .whileKw => "KwWhile" | .forKw => "KwFor"
  | .endKw => "KwEnd" | .andKw => "KwAnd" | .orKw => "KwOr" | .notKw => "KwNot" | .defKw => "KwDef"
  | .returnKw => "KwReturn" | .breakKw => "KwBreak" | .bitfieldKw => "KwBitfield" | .enumKw => "KwEnum"
  | .requireKw => "KwRequire" | .queryKw => "KwQuery" | .whereKw => "KwWhere"

end Keyword

/-- Operators and punctuation. -/
inductive Symbol where
  | plus | minus | star | starStar | slash | percent | pipe | caret | amp | tilde | shl | shr
  | lt | ltEq | gt | gtEq | eqEq | bangEq | assign | comma | semicolon | colon | colonColon | dot
  | arrow | lParen | rParen | lBracket | rBracket
deriving DecidableEq, Repr

namespace Symbol

/-- Every symbol, in order of declaration. -/
def all : List Symbol :=
  [.plus, .minus, .star, .starStar, .slash, .percent, .pipe, .caret, .amp, .tilde, .shl, .shr,
    .lt, .ltEq, .gt, .gtEq, .eqEq, .bangEq, .assign, .comma, .semicolon, .colon, .colonColon, .dot,
    .arrow, .lParen, .rParen, .lBracket, .rBracket]

/-- How the symbol is written: one or two ASCII characters. -/
def spelling : Symbol → Text
  | .plus => "+" | .minus => "-" | .star => "*" | .starStar => "**" | .slash => "/"
  | .percent => "%" | .pipe => "|" | .caret => "^" | .amp => "&" | .tilde => "~"
  | .shl => "<<" | .shr => ">>" | .lt => "<" | .ltEq => "<=" | .gt => ">" | .gtEq => ">="
  | .eqEq => "==" | .bangEq => "!=" | .assign => "=" | .comma => "," | .semicolon => ";"
  | .colon => ":" | .colonColon => "::" | .dot => "." | .arrow => "->" | .lParen => "("
  | .rParen => ")" | .lBracket => "[" | .rBracket => "]"

/-- The symbol with a given spelling. -/
def ofSpelling? (t : Text) : Option Symbol := all.find? (·.spelling == t)

/-- The symbol's name in listings. -/
def name : Symbol → Text
  | .plus => "Plus" | .minus => "Minus" | .star => "Star" | .starStar => "StarStar"
  | .slash => "Slash" | .percent => "Percent" | .pipe => "Pipe" | .caret => "Caret"
  | .amp => "Amp" | .tilde => "Tilde" | .shl => "Shl" | .shr => "Shr" | .lt => "Lt"
  | .ltEq => "LtEq" | .gt => "Gt" | .gtEq => "GtEq" | .eqEq => "EqEq" | .bangEq => "BangEq"
  | .assign => "Assign" | .comma => "Comma" | .semicolon => "Semicolon" | .colon => "Colon"
  | .colonColon => "ColonColon" | .dot => "Dot" | .arrow => "Arrow" | .lParen => "LParen"
  | .rParen => "RParen" | .lBracket => "LBracket" | .rBracket => "RBracket"

end Symbol

/-- The category of a token. -/
inductive Token.Kind where
  | invalid
  | eof
  | ident
  | int
  | float
  | string
  /-- A passthrough literal. -/
  | code
  | keyword (k : Keyword)
  | symbol (s : Symbol)
deriving DecidableEq, Repr

/-- A word of the source.  `text` is the source slice itself, except for names (in composed
canonical form) and for string and code literals (the decoded contents). -/
structure Token where
  kind : Token.Kind
  span : Span
  text : Text
deriving DecidableEq, Repr

namespace Token

/-- Every kind, in the order of the listings. -/
def Kind.all : List Kind :=
  [.invalid, .eof, .ident, .int, .float, .string, .code] ++ Keyword.all.map .keyword
    ++ Symbol.all.map .symbol

/-- The name of a kind in listings. -/
def Kind.name : Kind → Text
  | .invalid => "Invalid"
  | .eof => "EOF"
  | .ident => "Ident"
  | .int => "IntLit"
  | .float => "FloatLit"
  | .string => "StringLit"
  | .code => "CodeLit"
  | .keyword k => k.name
  | .symbol s => s.name

/-- The name of the kind with a given number; numbers past the last kind have no name. -/
def Kind.nameOfNumber (n : Nat) : Text :=
  match Kind.all[n]? with
  | some k => k.name
  | none => "Kind(?)"

/-- A number, string or code literal. -/
def Kind.isLiteral : Kind → Bool
  | .int | .float | .string | .code => true
  | _ => false

/-- A keyword. -/
def Kind.isKeyword : Kind → Bool
  | .keyword _ => true
  | _ => false

/-- An operator or punctuation mark. -/
def Kind.isSymbol : Kind → Bool
  | .symbol _ => true
  | _ => false

/-- A token that may begin a statement; error recovery stops in front of one. -/
def Kind.startsStatement : Kind → Bool
  | .ident | .code => true
  | .keyword k => match k with
    | .ifKw | .whileKw | .forKw | .defKw | .bitfieldKw | .enumKw | .requireKw | .breakKw | .returnKw => true
    | _ => false
  | _ => false

end Token

end AisScript
