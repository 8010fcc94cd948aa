import AisScript.Parser.Expr

/-!
# Parsing statements

A block is read statement by statement up to one of its closing keywords.  When a statement cannot
be read, tokens are skipped up to one that can begin a statement or close a block, and at least one
token is skipped, so a block always comes to an end.
-/

namespace AisScript.Parser

/-! ## Statements without blocks -/

/-- Skips to a token that can begin a statement or close a block; the token at `from_` itself is
skipped in any case. -/
def resync (from_ : Span) : Parser Unit := do
  let t ← peek
  if t.span = from_ ∧ t.kind ≠ .eof then
    let _ ← advance
  let s ← get
  skip s.ahead.length
where
  /-- Skips at most the given number of tokens. -/
  skip : Nat → Parser Unit
    | 0 => pure ()
    | n + 1 => do
      let t ← peek
      match t.kind with
      | .eof | .keyword .endKw | .keyword .elseKw | .keyword .elifKw => pure ()
      | k =>
        if k.startsStatement then pure ()
        else
          let _ ← advance
          skip n

/-- The value of an assignment behind its name. -/
def assignRest (steps : Nat) (name : Token) : Parser Assign := do
  let _ ← advance
  let value ← expr steps
  pure (.mk { span := name.span.cover value.span, name := name.text, nameSpan := name.span } value)

/-- An assignment. -/
def assignment (steps : Nat) : Parser Assign := do
  let name ← expectName "expected assignment"
  if ← atSymbol .assign then assignRest steps name
  else reject .badAssignTarget ("expected '=' after '" ++ name.text ++ "'")

/-- A statement that begins with a name: an assignment, an assignment to a member, or a call. -/
def namedStmt (steps : Nat) : Parser Stmt := do
  let name ← advance
  match ← peekKind with
  | .symbol .assign =>
    let a ← assignRest steps name
    pure (.assign a)
  | .symbol .lParen =>
    let call ← callRest steps name
    pure (.eval call.span call)
  | .symbol .dot =>
    let _ ← advance
    let m ← expectName "expected member name after '.'"
    let _ ← expectSymbol .assign .badAssignTarget "member access is not a statement, expected '='"
    let value ← expr steps
    let target := Expr.access .dotted (.name name.text name.span) m.text m.span
    pure (.assignMember (name.span.cover value.span) target value)
  | _ =>
    report .unexpectedToken name.span ("stray identifier '" ++ name.text ++ "'")
    failure

/-- The members of a bitfield.  A member with a bad width or a name seen before is reported and left
out. -/
def bitfieldMembers : (steps : Nat) → (done : List BitfieldMember) → Parser (List BitfieldMember)
  | 0, _ => failure
  | n + 1, done => do
    if ← atKind .ident then
      let m ← advance
      let _ ← expectSymbol .colon .unexpectedToken "expected ':' after bitfield member name"
      let width ← expect .int .expectNumber "expected bit length"
      match intValue? width.text with
      | some v =>
        if v ≤ 0 then
          report .bitfieldWidth width.span "bit length must be a positive integer"
          bitfieldMembers n done
        else if done.any (·.name == m.text) then
          report .unexpectedToken m.span ("duplicate bitfield member '" ++ m.text ++ "'")
          bitfieldMembers n done
        else bitfieldMembers n (⟨m.text, v.toInt.toNat⟩ :: done)
      | none =>
        report .bitfieldWidth width.span "bit length must be a positive integer"
        bitfieldMembers n done
    else pure done.reverse

/-- The definition of a bitfield. -/
def bitfieldDef (steps : Nat) : Parser Stmt := do
  let mark ← advance
  let name ← expectName "expected bitfield name"
  let members ← bitfieldMembers steps []
  if members.isEmpty then
    complain .expectIdentifier ("bitfield " ++ name.text ++ " needs at least one member")
  expectEnd "bitfield" mark.span
  let last ← lastSpan
  pure (.bitfieldDef (mark.span.cover last) { name := name.text, members, site := name.span })

/-- The value of an enumeration member behind its `=`. -/
def enumValue : Parser Int64 := do
  let _ ← advance
  let negative ← atSymbol .minus
  if negative then
    let _ ← advance
  let t ← expect .int .expectNumber "expected integer value for enum member"
  match intValue? t.text with
  | some v => pure (if negative then -v else v)
  | none =>
    report .expectNumber t.span "integer literal out of range"
    failure

/-- The members of an enumeration with their places. -/
def enumMembers : (steps : Nat) → (done : List (EnumSpec × Span)) → Parser (List (EnumSpec × Span))
  | 0, _ => failure
  | n + 1, done => do
    if ← atKind .ident then
      let m ← advance
      if ← atSymbol .assign then
        let v ← enumValue
        enumMembers n ((⟨m.text, some v⟩, m.span) :: done)
      else enumMembers n ((⟨m.text, none⟩, m.span) :: done)
    else pure done.reverse

/-- The definition of an enumeration. -/
def enumDef (steps : Nat) : Parser Stmt := do
  let mark ← advance
  let name ← expectName "expected enum name"
  let members ← enumMembers steps []
  if members.isEmpty then
    complain .expectIdentifier ("enum " ++ name.text ++ " needs at least one member")
  expectEnd "enum" mark.span
  let last ← lastSpan
  match Enumeration.build name.text name.span (members.map (·.1)) with
  | (e, none) => pure (.enumDef (mark.span.cover last) e)
  | (e, some fault) =>
    let span := match members[e.members.length]? with
      | some (_, s) => s
      | none => name.span
    report .enumOrder span fault.message
    failure

/-- A require. -/
def requireStmt : Parser Stmt := do
  let mark ← advance
  let path ← expect .string .expectString "expected file path string after 'require'"
  pure (.require (mark.span.cover path.span) path.text)

/-- The parameters of a function. -/
def params : (steps : Nat) → (done : List Param) → Parser (List Param)
  | 0, _ => failure
  | n + 1, done => do
    if ← atSymbol .rParen then pure done.reverse
    else
      let p ← expectName "expected parameter name"
      let done := ⟨p.text, p.span⟩ :: done
      if ← atSymbol .comma then
        let _ ← advance
        params n done
      else pure done.reverse

/-- The optional step of a loop header.  A name behind the second semicolon is always read as one. -/
def forStep (steps : Nat) : Parser (Option Assign) := do
  if ← atKind .ident then
    let name ← advance
    if ← atSymbol .assign then
      let a ← assignRest steps name
      pure (some a)
    else
      report .badAssignTarget name.span "expected assignment as for step"
      failure
  else pure none

/-! ## Statements with blocks -/

/-- Whether a token closes a block that ends at one of the given keywords. -/
def closes (ends : List Keyword) : Token.Kind → Bool
  | .eof => true
  | .keyword k => ends.contains k
  | _ => false

mutual

/-- The statements of a block up to one of the closing keywords, which is not consumed.  A function's
own block may end with a return. -/
def stmts : (steps : Nat) → (ofFunction : Bool) → (ends : List Keyword) → (done : List Stmt) →
    Parser (List Stmt)
  | 0, _, _, _ => failure
  | n + 1, ofFunction, ends, done => do
    let t ← peek
    if closes ends t.kind then pure done.reverse
    else
      if t.kind = .keyword .returnKw then
        match ← attempt (returnStmt n ofFunction) with
        | some s => stmts n ofFunction ends (s :: done)
        | none => stmts n ofFunction ends done
      else
        match ← attempt (stmt n) with
        | some s => stmts n ofFunction ends (s :: done)
        | none =>
          resync t.span
          stmts n ofFunction ends done

/-- A block. -/
def block : (steps : Nat) → (ofFunction : Bool) → (ends : List Keyword) → Parser Block
  | 0, _, _ => failure
  | n + 1, ofFunction, ends => do
    let first ← peek
    let body ← stmts n ofFunction ends []
    let last ← lastSpan
    pure (.mk [] body (first.span.cover last))

/-- A return, which must be the last statement of a function. -/
def returnStmt : (steps : Nat) → (ofFunction : Bool) → Parser Stmt
  | 0, _ => failure
  | n + 1, ofFunction => do
    let mark ← advance
    match ← attempt (expr n) with
    | none =>
      resync mark.span
      failure
    | some value =>
      let closed ← atKeyword .endKw
      if ofFunction && closed then pure (.ret (mark.span.cover value.span) value)
      else
        report .misplacedReturn mark.span "return must be the last statement of a function"
        failure

/-- A statement. -/
def stmt : (steps : Nat) → Parser Stmt
  | 0 => failure
  | n + 1 => do
    let t ← peek
    match t.kind with
    | .ident => namedStmt n
    | .keyword .ifKw =>
      let mark ← advance
      condRest n mark
    | .keyword .whileKw => loop n
    | .keyword .forKw => forLoop n
    | .keyword .defKw => funcDef n
    | .keyword .bitfieldKw => bitfieldDef n
    | .keyword .enumKw => enumDef n
    | .keyword .requireKw => requireStmt
    | .code =>
      let _ ← advance
      pure (.code t.span t.text)
    | .keyword .breakKw =>
      let _ ← advance
      pure (.leave t.span)
    | .invalid => failure
    | _ =>
      report .unexpectedToken t.span ("unexpected " ++ describe t ++ ", expected statement")
      failure

/-- Everything behind `if` or `elif`.  An `elif` becomes a conditional in the else block, and only
the outermost conditional consumes the `end`. -/
def condRest : (steps : Nat) → (mark : Token) → Parser Stmt
  | 0, _ => failure
  | n + 1, mark => do
    let test ← expr n
    let thenBlock ← block n false [.elifKw, .elseKw, .endKw]
    let elseBlock ← elseRest n mark
    let last ← lastSpan
    pure (.cond (mark.span.cover last) test thenBlock elseBlock)

/-- The rest of a conditional behind its first block. -/
def elseRest : (steps : Nat) → (mark : Token) → Parser (Option Block)
  | 0, _ => failure
  | n + 1, mark => do
    if ← atKeyword .elifKw then
      let inner ← advance
      let nested ← condRest n inner
      pure (some (.mk [] [nested] nested.span))
    else if ← atKeyword .elseKw then
      let _ ← advance
      let body ← block n false [.endKw]
      expectEnd "if" mark.span
      pure (some body)
    else
      expectEnd "if" mark.span
      pure none

/-- A loop with a condition. -/
def loop : (steps : Nat) → Parser Stmt
  | 0 => failure
  | n + 1 => do
    let mark ← advance
    let test ← expr n
    let body ← block n false [.endKw]
    expectEnd "while" mark.span
    let last ← lastSpan
    pure (.loop (mark.span.cover last) test body)

/-- `for [init]; [test]; [step] body end`. -/
def forLoop : (steps : Nat) → Parser Stmt
  | 0 => failure
  | n + 1 => do
    let mark ← advance
    let init ← if ← atSymbol .semicolon then pure none else some <$> assignment n
    let _ ← expectSymbol .semicolon .unexpectedToken "expected ';' after for initializer"
    let test ← if ← atSymbol .semicolon then pure none else some <$> expr n
    let _ ← expectSymbol .semicolon .unexpectedToken "expected ';' after for condition"
    let step ← forStep n
    let body ← block n false [.endKw]
    expectEnd "for" mark.span
    let last ← lastSpan
    pure (.forLoop (mark.span.cover last) init test step body)

/-- The definition of a function. -/
def funcDef : (steps : Nat) → Parser Stmt
  | 0 => failure
  | n + 1 => do
    let mark ← advance
    let name ← expectName "expected function name after 'def'"
    let _ ← expectSymbol .lParen .unexpectedToken "expected '(' after function name"
    let ps ← params n []
    let _ ← expectSymbol .rParen .unclosedParen "expected ')' after parameters"
    let body ← block n true [.endKw]
    expectEnd ("function " ++ name.text) mark.span
    let last ← lastSpan
    pure (.funcDef (mark.span.cover last) name.text name.span ps body)

end

end AisScript.Parser
