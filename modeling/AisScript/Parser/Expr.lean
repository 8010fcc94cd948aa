import AisScript.Parser.State

/-!
# Parsing expressions

Binary operators are read by precedence: a level reads its left operand and then every operator
that binds at least as tightly as the level asks.  From loose to tight: `or`, `and`, `not`,
comparisons (which cannot be chained), `|`, `^`, `&`, shifts, sums, products, the prefixes `-` and
`~`, `**` (which groups to the right), and member access.

Every function takes the number of steps it may still nest.  A step that does not consume a token
leads to one that does after at most ten more, so `stepsFor` gives enough for any input.
-/

namespace AisScript.Parser

/-- The precedence of comparisons. -/
def comparison : Nat := 4

/-- The operator a token stands for between two operands, and how tightly it binds.  `**` is not
among them: it binds tighter than the prefixes. -/
def infixOf? : Token.Kind → Option (BinaryOp × Nat)
  | .keyword .orKw => some (.or, 1)
  | .keyword .andKw => some (.and, 2)
  | .symbol s => match s with
    | .lt => some (.lt, comparison)
    | .ltEq => some (.le, comparison)
    | .gt => some (.gt, comparison)
    | .gtEq => some (.ge, comparison)
    | .eqEq => some (.eq, comparison)
    | .bangEq => some (.ne, comparison)
    | .pipe => some (.bitOr, 5)
    | .caret => some (.bitXor, 6)
    | .amp => some (.bitAnd, 7)
    | .shl => some (.shl, 8)
    | .shr => some (.shr, 8)
    | .plus => some (.add, 9)
    | .minus => some (.sub, 9)
    | .star => some (.mul, 10)
    | .slash => some (.div, 10)
    | .percent => some (.mod, 10)
    | _ => none
  | _ => none

/-- Whether a token compares. -/
def isComparison (k : Token.Kind) : Bool :=
  match infixOf? k with
  | some (_, p) => p = comparison
  | none => false

/-- The access a token stands for. -/
def accessOf? : Token.Kind → Option Access
  | .symbol .dot => some .dotted
  | .symbol .arrow => some .chronal
  | .symbol .colonColon => some .classwise
  | _ => none

/-- The operator a token stands for in front of an operand. -/
def prefixOf? : Token.Kind → Option UnaryOp
  | .symbol .minus => some .neg
  | .symbol .tilde => some .bitNot
  | _ => none

/-- Enough steps for an input of the given number of lexemes. -/
def stepsFor (lexemes : Nat) : Nat := 12 * (lexemes + 2)

mutual

/-- An expression whose operators bind at least as tightly as `least`. -/
def binary : (steps least : Nat) → Parser Expr
  | 0, _ => failure
  | n + 1, least => do
    let left ← negation n
    binaryRest n least left

/-- The operators and right operands behind `left`. -/
def binaryRest : (steps least : Nat) → Expr → Parser Expr
  | 0, _, _ => failure
  | n + 1, least, left => do
    match infixOf? (← peekKind) with
    | none => pure left
    | some (op, strength) =>
      if strength < least then pure left
      else
        let _ ← advance
        let right ← binary n (strength + 1)
        if strength = comparison then
          if isComparison (← peekKind) then
            complain .unexpectedToken "comparison operators cannot be chained"
            failure
        binaryRest n least (.infixOp op left right)

/-- `not` in front of a comparison, or an operand. -/
def negation : (steps : Nat) → Parser Expr
  | 0 => failure
  | n + 1 => do
    if ← atKeyword .notKw then
      let mark ← advance
      let operand ← binary n comparison
      pure (.prefixOp .not operand mark.span)
    else unary n

/-- The prefixes `-` and `~`. -/
def unary : (steps : Nat) → Parser Expr
  | 0 => failure
  | n + 1 => do
    match prefixOf? (← peekKind) with
    | some op =>
      let mark ← advance
      let operand ← unary n
      pure (.prefixOp op operand mark.span)
    | none => power n

/-- `a ** b`, where `b` may have prefixes and powers of its own. -/
def power : (steps : Nat) → Parser Expr
  | 0 => failure
  | n + 1 => do
    let head ← primary n
    let base ← members n head
    if ← atSymbol .starStar then
      let _ ← advance
      let exponent ← unary n
      pure (.infixOp .pow base exponent)
    else pure base

/-- The member accesses behind a base. -/
def members : (steps : Nat) → Expr → Parser Expr
  | 0, _ => failure
  | n + 1, base => do
    match accessOf? (← peekKind) with
    | none => pure base
    | some a =>
      let mark ← advance
      let m ← expectName ("expected member name after '" ++ mark.text ++ "'")
      members n (.access a base m.text m.span)

/-- A literal, a name, a call, a query or an expression in parentheses. -/
def primary : (steps : Nat) → Parser Expr
  | 0 => failure
  | n + 1 => do
    let t ← peek
    match t.kind with
    | .int =>
      let _ ← advance
      match intValue? t.text with
      | some v => pure (.literal (.int v) t.span)
      | none =>
        report .expectNumber t.span "integer literal out of range"
        failure
    | .float =>
      let _ ← advance
      match Double.ofLiteral? t.text with
      | some v => pure (.literal (.float v) t.span)
      | none =>
        report .expectNumber t.span "float literal out of range"
        failure
    | .string =>
      let _ ← advance
      pure (.literal (.string t.text) t.span)
    | .ident =>
      let _ ← advance
      if ← atSymbol .lParen then callRest n t else pure (.name t.text t.span)
    | .symbol .lParen =>
      let _ ← advance
      let inner ← binary n 1
      let _ ← expectSymbol .rParen .unclosedParen "expected ')'"
      pure inner
    | .keyword .queryKw => query n
    | .invalid =>
      let _ ← advance
      failure
    | _ => reject .expectExpression ("expected expression, got " ++ describe t)

/-- The arguments of a call behind its name. -/
def callRest : (steps : Nat) → Token → Parser Expr
  | 0, _ => failure
  | n + 1, callee => do
    let _ ← advance
    let args ← arguments n []
    let closing ← expectSymbol .rParen .unclosedParen ("expected ')' to close call of " ++ callee.text)
    pure (.apply callee.text callee.span args (callee.span.cover closing.span))

/-- Arguments with commas between them; one more comma may follow the last.  `done` holds those
already read, the latest first. -/
def arguments : (steps : Nat) → (done : List Expr) → Parser (List Expr)
  | 0, _ => failure
  | n + 1, done => do
    let k ← peekKind
    if k = .symbol .rParen ∨ k = .eof then pure done.reverse
    else
      let arg ← binary n 1
      let done := arg :: done
      if ← atSymbol .comma then
        let _ ← advance
        arguments n done
      else if ← atSymbol .rParen then pure done.reverse
      else reject .unexpectedToken ("expected ',' after argument " ++ Text.ofNat done.length)

/-- `query KIND [unit] OP [operand] where [condition]`. -/
def query : (steps : Nat) → Parser Expr
  | 0 => failure
  | n + 1 => do
    let mark ← advance
    let kind ← expectName "expected query kind"
    let unit ← bracketed n
    let op ← expectName "expected query operation"
    let operand ← bracketed n
    let _ ← expect (.keyword .whereKw) .unexpectedToken "expected 'where' in query"
    let condition ← bracketed n
    let last ← lastSpan
    pure (.query { span := mark.span.cover last } kind.text op.text unit operand condition)

/-- `[expression]` or `[]`. -/
def bracketed : (steps : Nat) → Parser (Option Expr)
  | 0 => failure
  | n + 1 => do
    let _ ← expectSymbol .lBracket .unexpectedToken "expected '['"
    if ← atSymbol .rBracket then
      let _ ← advance
      pure none
    else
      let inner ← binary n 1
      let _ ← expectSymbol .rBracket .unclosedBracket "expected ']'"
      pure (some inner)

end

/-- An expression. -/
def expr (steps : Nat) : Parser Expr := binary steps 1

end AisScript.Parser
