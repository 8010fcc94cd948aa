import AisScript.Parser

/-!
# A parser that is watched

The parser counts down the number of steps it may still nest, and a step that has none left fails, just as a
step that cannot read what is ahead; and where it is told to consume the end mark, it goes on without a word.
Here is the same parser once more, with a *guard* in these places, and in one more: it decides what happens
when no steps are left, when the end mark is to be consumed, and when a turn of the loop that reads a block
did not consume anything.  Every function does what the function of the same name of the parser does, until
it comes to such a place.

* `Guard`            what happens in these places
* `Guard.advance`    consuming a token
* `Guard.turned`     the end of a turn
* `Guard.program`    a block at top level
-/

namespace AisScript.Parser

/-- What a parser does where it should never come. -/
structure Guard where
  /-- No steps are left. -/
  spent : (α : Type) → Parser α
  /-- The end mark is to be consumed. -/
  past : Parser Token
  /-- A turn of the loop that reads a block consumed nothing. -/
  stuck : Parser Unit

namespace Guard

/-- The number of lexemes that are not consumed yet. -/
def left : Parser Nat := do
  let s ← get
  pure s.ahead.length

variable (g : Guard)

/-! ## Tokens -/

/-- Consumes the next token, which must not be the end mark. -/
def advance : Parser Token := do
  let t ← peek
  if t.kind = .eof then g.past
  else
    modify fun s => { s with ahead := s.ahead.tail, seen := false, last := t.span }
    pure t

/-- The end of a turn, which began with the given number of lexemes. -/
def turned (before : Nat) : Parser Unit := do
  let now ← left
  if now < before then pure () else g.stuck

/-- Consumes a token of the given kind, or reports that it is missing and fails. -/
def expect (k : Token.Kind) (code : Code) (message : Text) : Parser Token := do
  if ← atKind k then g.advance else reject code message

/-- Consumes a name. -/
def expectName (message : Text) : Parser Token := g.expect .ident .expectIdentifier message

/-- Consumes a symbol. -/
def expectSymbol (s : Symbol) (code : Code) (message : Text) : Parser Token :=
  g.expect (.symbol s) code message

/-- Consumes the `end` of a construct that was opened at `opened`. -/
def expectEnd (what : Text) (opened : Span) : Parser Unit := do
  if ← atKeyword .endKw then
    let _ ← g.advance
  else
    let span ← problemSpan
    report .expectEnd span ("expected 'end' to close " ++ what) [⟨opened, what ++ " starts here"⟩]
    failure

/-! ## Expressions -/

mutual

/-- An expression whose operators bind at least as tightly as `least`. -/
def binary : (steps least : Nat) → Parser Expr
  | 0, _ => g.spent _
  | n + 1, least => do
    let left ← negation n
    binaryRest n least left

/-- The operators and right operands behind `left`. -/
def binaryRest : (steps least : Nat) → Expr → Parser Expr
  | 0, _, _ => g.spent _
  | n + 1, least, left => do
    match infixOf? (← peekKind) with
    | none => pure left
    | some (op, strength) =>
      if strength < least then pure left
      else
        let _ ← g.advance
        let right ← binary n (strength + 1)
        if strength = comparison then
          if isComparison (← peekKind) then
            complain .unexpectedToken "comparison operators cannot be chained"
            failure
        binaryRest n least (.infixOp op left right)

/-- `not` in front of a comparison, or an operand. -/
def negation : (steps : Nat) → Parser Expr
  | 0 => g.spent _
  | n + 1 => do
    if ← atKeyword .notKw then
      let mark ← g.advance
      let operand ← binary n comparison
      pure (.prefixOp .not operand mark.span)
    else unary n

/-- The prefixes `-` and `~`. -/
def unary : (steps : Nat) → Parser Expr
  | 0 => g.spent _
  | n + 1 => do
    match prefixOf? (← peekKind) with
    | some op =>
      let mark ← g.advance
      let operand ← unary n
      pure (.prefixOp op operand mark.span)
    | none => power n

/-- `a ** b`, where `b` may have prefixes and powers of its own. -/
def power : (steps : Nat) → Parser Expr
  | 0 => g.spent _
  | n + 1 => do
    let head ← primary n
    let base ← members n head
    if ← atSymbol .starStar then
      let _ ← g.advance
      let exponent ← unary n
      pure (.infixOp .pow base exponent)
    else pure base

/-- The member accesses behind a base. -/
def members : (steps : Nat) → Expr → Parser Expr
  | 0, _ => g.spent _
  | n + 1, base => do
    match accessOf? (← peekKind) with
    | none => pure base
    | some a =>
      let mark ← g.advance
      let m ← g.expectName ("expected member name after '" ++ mark.text ++ "'")
      members n (.access a base m.text m.span)

/-- A literal, a name, a call, a query or an expression in parentheses. -/
def primary : (steps : Nat) → Parser Expr
  | 0 => g.spent _
  | n + 1 => do
    let t ← peek
    match t.kind with
    | .int =>
      let _ ← g.advance
      match intValue? t.text with
      | some v => pure (.literal (.int v) t.span)
      | none =>
        report .expectNumber t.span "integer literal out of range"
        failure
    | .float =>
      let _ ← g.advance
      match Double.ofLiteral? t.text with
      | some v => pure (.literal (.float v) t.span)
      | none =>
        report .expectNumber t.span "float literal out of range"
        failure
    | .string =>
      let _ ← g.advance
      pure (.literal (.string t.text) t.span)
    | .ident =>
      let _ ← g.advance
      if ← atSymbol .lParen then callRest n t else pure (.name t.text t.span)
    | .symbol .lParen =>
      let _ ← g.advance
      let inner ← binary n 1
      let _ ← g.expectSymbol .rParen .unclosedParen "expected ')'"
      pure inner
    | .keyword .queryKw => query n
    | .invalid =>
      let _ ← g.advance
      failure
    | _ => reject .expectExpression ("expected expression, got " ++ describe t)

/-- The arguments of a call behind its name. -/
def callRest : (steps : Nat) → Token → Parser Expr
  | 0, _ => g.spent _
  | n + 1, callee => do
    let _ ← g.advance
    let args ← arguments n []
    let closing ← g.expectSymbol .rParen .unclosedParen ("expected ')' to close call of " ++ callee.text)
    pure (.apply callee.text callee.span args (callee.span.cover closing.span))

/-- Arguments with commas between them; one more comma may follow the last.  `done` holds those
already read, the latest first. -/
def arguments : (steps : Nat) → (done : List Expr) → Parser (List Expr)
  | 0, _ => g.spent _
  | n + 1, done => do
    let k ← peekKind
    if k = .symbol .rParen ∨ k = .eof then pure done.reverse
    else
      let arg ← binary n 1
      let done := arg :: done
      if ← atSymbol .comma then
        let _ ← g.advance
        arguments n done
      else if ← atSymbol .rParen then pure done.reverse
      else reject .unexpectedToken ("expected ',' after argument " ++ Text.ofNat done.length)

/-- `query KIND [unit] OP [operand] where [condition]`. -/
def query : (steps : Nat) → Parser Expr
  | 0 => g.spent _
  | n + 1 => do
    let mark ← g.advance
    let kind ← g.expectName "expected query kind"
    let unit ← bracketed n
    let op ← g.expectName "expected query operation"
    let operand ← bracketed n
    let _ ← g.expect (.keyword .whereKw) .unexpectedToken "expected 'where' in query"
    let condition ← bracketed n
    let last ← lastSpan
    pure (.query { span := mark.span.cover last } kind.text op.text unit operand condition)

/-- `[expression]` or `[]`. -/
def bracketed : (steps : Nat) → Parser (Option Expr)
  | 0 => g.spent _
  | n + 1 => do
    let _ ← g.expectSymbol .lBracket .unexpectedToken "expected '['"
    if ← atSymbol .rBracket then
      let _ ← g.advance
      pure none
    else
      let inner ← binary n 1
      let _ ← g.expectSymbol .rBracket .unclosedBracket "expected ']'"
      pure (some inner)

end

/-- An expression. -/
def expr (steps : Nat) : Parser Expr := g.binary steps 1

/-! ## Statements without blocks -/

/-- Skips to a token that can begin a statement or close a block; the token at `from_` itself is
skipped in any case. -/
def resync (from_ : Span) : Parser Unit := do
  let t ← peek
  if t.span = from_ ∧ t.kind ≠ .eof then
    let _ ← g.advance
  let s ← get
  skip s.ahead.length
where
  /-- Skips at most the given number of tokens. -/
  skip : Nat → Parser Unit
    | 0 => g.spent _
    | n + 1 => do
      let t ← peek
      match t.kind with
      | .eof | .keyword .endKw | .keyword .elseKw | .keyword .elifKw => pure ()
      | k =>
        if k.startsStatement then pure ()
        else
          let _ ← g.advance
          skip n

/-- The value of an assignment behind its name. -/
def assignRest (steps : Nat) (name : Token) : Parser Assign := do
  let _ ← g.advance
  let value ← g.expr steps
  pure (.mk { span := name.span.cover value.span, name := name.text, nameSpan := name.span } value)

/-- An assignment. -/
def assignment (steps : Nat) : Parser Assign := do
  let name ← g.expectName "expected assignment"
  if ← atSymbol .assign then g.assignRest steps name
  else reject .badAssignTarget ("expected '=' after '" ++ name.text ++ "'")

/-- A statement that begins with a name: an assignment, an assignment to a member, or a call. -/
def namedStmt (steps : Nat) : Parser Stmt := do
  let name ← g.advance
  match ← peekKind with
  | .symbol .assign =>
    let a ← g.assignRest steps name
    pure (.assign a)
  | .symbol .lParen =>
    let call ← g.callRest steps name
    pure (.eval call.span call)
  | .symbol .dot =>
    let _ ← g.advance
    let m ← g.expectName "expected member name after '.'"
    let _ ← g.expectSymbol .assign .badAssignTarget "member access is not a statement, expected '='"
    let value ← g.expr steps
    let target := Expr.access .dotted (.name name.text name.span) m.text m.span
    pure (.assignMember (name.span.cover value.span) target value)
  | _ =>
    report .unexpectedToken name.span ("stray identifier '" ++ name.text ++ "'")
    failure

/-- The members of a bitfield.  A member with a bad width or a name seen before is reported and left
out. -/
def bitfieldMembers : (steps : Nat) → (done : List BitfieldMember) → Parser (List BitfieldMember)
  | 0, _ => g.spent _
  | n + 1, done => do
    if ← atKind .ident then
      let m ← g.advance
      let _ ← g.expectSymbol .colon .unexpectedToken "expected ':' after bitfield member name"
      let width ← g.expect .int .expectNumber "expected bit length"
      match intValue? width.text with
      | some v =>
        if v ≤ 0 then
          report .bitfieldWidth width.span "bit length must be a positive integer"
          bitfieldMembers n done
        else if done.any (·.name == m.text) then
          report .unexpectedToken m.span ("duplicate bitfield member '" ++ m.text ++ "'")
          bitfieldMembers n done
        else bitfieldMembers n (⟨m.text, v.toInt.toNat⟩ :: done)
      | none =>
        report .bitfieldWidth width.span "bit length must be a positive integer"
        bitfieldMembers n done
    else pure done.reverse

/-- The definition of a bitfield. -/
def bitfieldDef (steps : Nat) : Parser Stmt := do
  let mark ← g.advance
  let name ← g.expectName "expected bitfield name"
  let members ← g.bitfieldMembers steps []
  if members.isEmpty then
    complain .expectIdentifier ("bitfield " ++ name.text ++ " needs at least one member")
  g.expectEnd "bitfield" mark.span
  let last ← lastSpan
  pure (.bitfieldDef (mark.span.cover last) { name := name.text, members, site := name.span })

/-- The value of an enumeration member behind its `=`. -/
def enumValue : Parser Int64 := do
  let _ ← g.advance
  let negative ← atSymbol .minus
  if negative then
    let _ ← g.advance
  let t ← g.expect .int .expectNumber "expected integer value for enum member"
  match intValue? t.text with
  | some v => pure (if negative then -v else v)
  | none =>
    report .expectNumber t.span "integer literal out of range"
    failure

/-- The members of an enumeration with their places. -/
def enumMembers : (steps : Nat) → (done : List (EnumSpec × Span)) → Parser (List (EnumSpec × Span))
  | 0, _ => g.spent _
  | n + 1, done => do
    if ← atKind .ident then
      let m ← g.advance
      if ← atSymbol .assign then
        let v ← g.enumValue
        enumMembers n ((⟨m.text, some v⟩, m.span) :: done)
      else enumMembers n ((⟨m.text, none⟩, m.span) :: done)
    else pure done.reverse

/-- The definition of an enumeration. -/
def enumDef (steps : Nat) : Parser Stmt := do
  let mark ← g.advance
  let name ← g.expectName "expected enum name"
  let members ← g.enumMembers steps []
  if members.isEmpty then
    complain .expectIdentifier ("enum " ++ name.text ++ " needs at least one member")
  g.expectEnd "enum" mark.span
  let last ← lastSpan
  match Enumeration.build name.text name.span (members.map (·.1)) with
  | (e, none) => pure (.enumDef (mark.span.cover last) e)
  | (e, some fault) =>
    let span := match members[e.members.length]? with
      | some (_, s) => s
      | none => name.span
    report .enumOrder span fault.message
    failure

/-- A require. -/
def requireStmt : Parser Stmt := do
  let mark ← g.advance
  let path ← g.expect .string .expectString "expected file path string after 'require'"
  pure (.require (mark.span.cover path.span) path.text)

/-- The parameters of a function. -/
def params : (steps : Nat) → (done : List Param) → Parser (List Param)
  | 0, _ => g.spent _
  | n + 1, done => do
    if ← atSymbol .rParen then pure done.reverse
    else
      let p ← g.expectName "expected parameter name"
      let done := ⟨p.text, p.span⟩ :: done
      if ← atSymbol .comma then
        let _ ← g.advance
        params n done
      else pure done.reverse

/-- The optional step of a loop header.  A name behind the second semicolon is always read as one. -/
def forStep (steps : Nat) : Parser (Option Assign) := do
  if ← atKind .ident then
    let name ← g.advance
    if ← atSymbol .assign then
      let a ← g.assignRest steps name
      pure (some a)
    else
      report .badAssignTarget name.span "expected assignment as for step"
      failure
  else pure none

/-! ## Statements with blocks -/

mutual

/-- The statements of a block up to one of the closing keywords.  Every turn has to consume a token. -/
def stmts : (steps : Nat) → (ofFunction : Bool) → (ends : List Keyword) → (done : List Stmt) →
    Parser (List Stmt)
  | 0, _, _, _ => g.spent _
  | n + 1, ofFunction, ends, done => do
    let t ← peek
    if closes ends t.kind then pure done.reverse
    else
      let before ← left
      if t.kind = .keyword .returnKw then
        match ← attempt (returnStmt n ofFunction) with
        | some s =>
          g.turned before
          stmts n ofFunction ends (s :: done)
        | none =>
          g.turned before
          stmts n ofFunction ends done
      else
        match ← attempt (stmt n) with
        | some s =>
          g.turned before
          stmts n ofFunction ends (s :: done)
        | none =>
          g.resync t.span
          g.turned before
          stmts n ofFunction ends done

/-- A block. -/
def block : (steps : Nat) → (ofFunction : Bool) → (ends : List Keyword) → Parser Block
  | 0, _, _ => g.spent _
  | n + 1, ofFunction, ends => do
    let first ← peek
    let body ← stmts n ofFunction ends []
    let last ← lastSpan
    pure (.mk [] body (first.span.cover last))

/-- A return, which must be the last statement of a function. -/
def returnStmt : (steps : Nat) → (ofFunction : Bool) → Parser Stmt
  | 0, _ => g.spent _
  | n + 1, ofFunction => do
    let mark ← g.advance
    match ← attempt (g.expr n) with
    | none =>
      g.resync mark.span
      failure
    | some value =>
      let closed ← atKeyword .endKw
      if ofFunction && closed then pure (.ret (mark.span.cover value.span) value)
      else
        report .misplacedReturn mark.span "return must be the last statement of a function"
        failure

/-- A statement. -/
def stmt : (steps : Nat) → Parser Stmt
  | 0 => g.spent _
  | n + 1 => do
    let t ← peek
    match t.kind with
    | .ident => g.namedStmt n
    | .keyword .ifKw =>
      let mark ← g.advance
      condRest n mark
    | .keyword .whileKw => loop n
    | .keyword .forKw => forLoop n
    | .keyword .defKw => funcDef n
    | .keyword .bitfieldKw => g.bitfieldDef n
    | .keyword .enumKw => g.enumDef n
    | .keyword .requireKw => g.requireStmt
    | .code =>
      let _ ← g.advance
      pure (.code t.span t.text)
    | .keyword .breakKw =>
      let _ ← g.advance
      pure (.leave t.span)
    | .invalid => failure
    | _ =>
      report .unexpectedToken t.span ("unexpected " ++ describe t ++ ", expected statement")
      failure

/-- Everything behind `if` or `elif`.  An `elif` becomes a conditional in the else block, and only
the outermost conditional consumes the `end`. -/
def condRest : (steps : Nat) → (mark : Token) → Parser Stmt
  | 0, _ => g.spent _
  | n + 1, mark => do
    let test ← g.expr n
    let thenBlock ← block n false [.elifKw, .elseKw, .endKw]
    let elseBlock ← elseRest n mark
    let last ← lastSpan
    pure (.cond (mark.span.cover last) test thenBlock elseBlock)

/-- The rest of a conditional behind its first block. -/
def elseRest : (steps : Nat) → (mark : Token) → Parser (Option Block)
  | 0, _ => g.spent _
  | n + 1, mark => do
    if ← atKeyword .elifKw then
      let inner ← g.advance
      let nested ← condRest n inner
      pure (some (.mk [] [nested] nested.span))
    else if ← atKeyword .elseKw then
      let _ ← g.advance
      let body ← block n false [.endKw]
      g.expectEnd "if" mark.span
      pure (some body)
    else
      g.expectEnd "if" mark.span
      pure none

/-- A loop with a condition. -/
def loop : (steps : Nat) → Parser Stmt
  | 0 => g.spent _
  | n + 1 => do
    let mark ← g.advance
    let test ← g.expr n
    let body ← block n false [.endKw]
    g.expectEnd "while" mark.span
    let last ← lastSpan
    pure (.loop (mark.span.cover last) test body)

/-- `for [init]; [test]; [step] body end`. -/
def forLoop : (steps : Nat) → Parser Stmt
  | 0 => g.spent _
  | n + 1 => do
    let mark ← g.advance
    let init ← if ← atSymbol .semicolon then pure none else some <$> g.assignment n
    let _ ← g.expectSymbol .semicolon .unexpectedToken "expected ';' after for initializer"
    let test ← if ← atSymbol .semicolon then pure none else some <$> g.expr n
    let _ ← g.expectSymbol .semicolon .unexpectedToken "expected ';' after for condition"
    let step ← g.forStep n
    let body ← block n false [.endKw]
    g.expectEnd "for" mark.span
    let last ← lastSpan
    pure (.forLoop (mark.span.cover last) init test step body)

/-- The definition of a function. -/
def funcDef : (steps : Nat) → Parser Stmt
  | 0 => g.spent _
  | n + 1 => do
    let mark ← g.advance
    let name ← g.expectName "expected function name after 'def'"
    let _ ← g.expectSymbol .lParen .unexpectedToken "expected '(' after function name"
    let ps ← g.params n []
    let _ ← g.expectSymbol .rParen .unclosedParen "expected ')' after parameters"
    let body ← block n true [.endKw]
    g.expectEnd ("function " ++ name.text) mark.span
    let last ← lastSpan
    pure (.funcDef (mark.span.cover last) name.text name.span ps body)

end

/-! ## Files -/

/-- A block at top level, and the place from the first token to the end of the input. -/
def program (steps : Nat) : Parser Block := do
  let first ← peek
  let body ← g.block steps false []
  let last ← peek
  pure (body.withSpan (first.span.cover last.span))

end Guard

end AisScript.Parser
