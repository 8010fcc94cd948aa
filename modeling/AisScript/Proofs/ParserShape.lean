import AisScript.Require
import AisScript.Proofs.Marking

/-!
# What the parser builds

Every tree the parser returns, also for an input with errors, is marked against all names: its
literals are typed, none of its calls is resolved, no assignment declares, and a return stands only
at the end of a function's body.  For the last point the parser has to be followed through its state:
a return is accepted only in front of `end`, and there the statements of the body stop.

* `Parser.Ensures`       a step of the parser and what it leaves
* `Parser.ExprsBare`     all expression parsers at one number of steps
* `Parser.StmtsMarked`   all statement parsers at one number of steps
* `parse_marked`         whole files
* `Block.resolve_sourced`   programs with the files they require in place
-/

namespace AisScript

namespace Parser

variable {α β : Type}

/-! ## Steps of the parser -/

/-- Started in a state with `pre`, a step that succeeds leaves a result and a state with `post`. -/
def Ensures (pre : ParseState → Prop) (p : Parser α) (post : α → ParseState → Prop) : Prop :=
  ∀ s, pre s → ∀ a s', p.run s = (some a, s') → post a s'

/-- A step whose result, whatever the state, satisfies a predicate. -/
def Yields (p : Parser α) (post : α → Prop) : Prop :=
  Ensures (fun _ => True) p (fun a _ => post a)

/-- Running two steps in a row: the second one only if the first one succeeds. -/
theorem run_bind (p : Parser α) (f : α → Parser β) (s : ParseState) :
    (p >>= f).run s = match p.run s with
      | (some a, s₁) => (f a).run s₁
      | (none, s₁) => (none, s₁) := by
  rw [OptionT.run_bind]
  simp only [Option.elimM, bind, StateT.bind]
  cases p.run s with
  | mk r s₁ => cases r <;> rfl

/-- Two steps in a row. -/
theorem Ensures.bind {pre : ParseState → Prop} {p : Parser α} {M : α → ParseState → Prop}
    {f : α → Parser β} {post : β → ParseState → Prop} (hp : Ensures pre p M)
    (hf : ∀ a, Ensures (M a) (f a) post) : Ensures pre (p >>= f) post := by
  intro s hs b s' h
  rw [run_bind] at h
  cases hr : p.run s with
  | mk r s₁ =>
    cases r with
    | none => rw [hr] at h; exact nomatch h
    | some a =>
      rw [hr] at h
      exact hf a s₁ (hp s hs a s₁ hr) b s' h

/-- A step that does nothing. -/
theorem Ensures.pure {pre : ParseState → Prop} {a : α} {Q : α → ParseState → Prop}
    (h : ∀ s, pre s → Q a s) : Ensures pre (Pure.pure a : Parser α) Q := by
  intro s hs b s' hr
  cases hr
  exact h s hs

/-- Failing promises anything. -/
theorem Ensures.failure {pre : ParseState → Prop} {post : α → ParseState → Prop} :
    Ensures pre (Alternative.failure : Parser α) post := by
  intro s _ b s' hr
  exact nomatch hr

/-- A step promises less from more. -/
theorem Ensures.weaken {pre pre' : ParseState → Prop} {p : Parser α} {post post' : α → ParseState → Prop}
    (h : Ensures pre p post) (hpre : ∀ s, pre' s → pre s) (hpost : ∀ a s, post a s → post' a s) :
    Ensures pre' p post' :=
  fun s hs a s' hr => hpost a s' (h s (hpre s hs) a s' hr)

/-- Every step promises nothing. -/
theorem Yields.any (p : Parser α) : Yields p fun _ => True := fun _ _ _ _ _ => trivial

/-- Two steps in a row, whatever the state. -/
theorem Yields.bind {p : Parser α} {M : α → Prop} {f : α → Parser β} {post : β → Prop}
    (hp : Yields p M) (hf : ∀ a, M a → Yields (f a) post) : Yields (p >>= f) post :=
  Ensures.bind hp fun a s hs => hf a hs s trivial

/-- A step whose result does not matter, and one behind it. -/
theorem Yields.then {p : Parser α} {f : α → Parser β} {post : β → Prop}
    (hf : ∀ a, Yields (f a) post) : Yields (p >>= f) post :=
  Yields.bind (Yields.any p) fun a _ => hf a

/-- A step that does nothing. -/
theorem Yields.pure {a : α} {post : α → Prop} (h : post a) : Yields (Pure.pure a) post :=
  Ensures.pure fun _ _ => h

/-- Failing promises anything. -/
theorem Yields.failure {post : α → Prop} : Yields (Alternative.failure : Parser α) post :=
  Ensures.failure

/-- A step whose result is changed. -/
theorem Yields.map {p : Parser α} {M : α → Prop} {f : α → β} {post : β → Prop}
    (hp : Yields p M) (hf : ∀ a, M a → post (f a)) : Yields (f <$> p) post := by
  rw [map_eq_pure_bind]
  exact hp.bind fun a ha => Yields.pure (hf a ha)

/-- Rejecting a token is failing. -/
theorem Yields.reject {code : Code} {message : Text} {post : α → Prop} :
    Yields (Parser.reject code message : Parser α) post :=
  Yields.then fun _ => Yields.failure

/-! ## Expressions -/

/-- A literal is bare. -/
private theorem bare_literal (v : Literal) (span : Span) : (Expr.literal v span).Bare .source :=
  List.forall_mem_cons.2 ⟨rfl, fun _ h => nomatch h⟩

/-- A name is bare. -/
private theorem bare_name (n : Text) (span : Span) : (Expr.name n span).Bare .source :=
  List.forall_mem_cons.2 ⟨trivial, fun _ h => nomatch h⟩

/-- An operation is bare if its operands are. -/
private theorem bare_infixOp (op : BinaryOp) {l r : Expr} (hl : l.Bare .source) (hr : r.Bare .source) :
    (Expr.infixOp op l r).Bare .source := by
  simp only [Expr.Bare, Expr.infixOp, Expr.nodes, List.forall_mem_cons, List.forall_mem_append]
  exact ⟨trivial, hl, hr⟩

/-- A prefixed operand is bare if the operand is. -/
private theorem bare_prefixOp (op : UnaryOp) {x : Expr} (span : Span) (hx : x.Bare .source) :
    (Expr.prefixOp op x span).Bare .source := by
  simp only [Expr.Bare, Expr.prefixOp, Expr.nodes, List.forall_mem_cons]
  exact ⟨trivial, hx⟩

/-- A member is bare if its base is. -/
private theorem bare_access (a : Access) {b : Expr} (n : Text) (ns : Span) (hb : b.Bare .source) :
    (Expr.access a b n ns).Bare .source := by
  simp only [Expr.Bare, Expr.access, Expr.nodes, List.forall_mem_cons]
  exact ⟨trivial, hb⟩

/-- A list of expressions is bare if each of them is. -/
private theorem bare_list {es : List Expr} (h : ∀ e ∈ es, e.Bare .source) :
    ∀ x ∈ nodesOfList es, x.IsBare .source := by
  induction es with
  | nil => exact fun _ hx => nomatch hx
  | cons e es ih =>
    obtain ⟨he, hes⟩ := List.forall_mem_cons.1 h
    exact List.forall_mem_append.2 ⟨he, ih hes⟩

/-- A call is bare if its arguments are. -/
private theorem bare_apply (n : Text) (ns : Span) {args : List Expr} (span : Span)
    (h : ∀ e ∈ args, e.Bare .source) : (Expr.apply n ns args span).Bare .source := by
  simp only [Expr.Bare, Expr.apply, Expr.nodes, List.forall_mem_cons]
  exact ⟨rfl, bare_list h⟩

/-- All expression parsers yield bare expressions at a number of steps. -/
structure ExprsBare (n : Nat) : Prop where
  binary : ∀ least, Yields (binary n least) (Expr.Bare .source)
  binaryRest : ∀ least e, e.Bare .source → Yields (binaryRest n least e) (Expr.Bare .source)
  negation : Yields (negation n) (Expr.Bare .source)
  unary : Yields (unary n) (Expr.Bare .source)
  power : Yields (power n) (Expr.Bare .source)
  members : ∀ e, e.Bare .source → Yields (members n e) (Expr.Bare .source)
  primary : Yields (primary n) (Expr.Bare .source)
  callRest : ∀ t, Yields (callRest n t) (Expr.Bare .source)
  arguments : ∀ done, (∀ e ∈ done, e.Bare .source) →
    Yields (arguments n done) (fun es => ∀ e ∈ es, e.Bare .source)
  query : Yields (query n) (Expr.Bare .source)
  bracketed : Yields (bracketed n) (BareOption .source)

/-- Every number of steps yields bare expressions. -/
private theorem exprsBare (n : Nat) : ExprsBare n := by
  induction n with
  -- Without steps, every parser gives up.
  | zero =>
    constructor <;> intros <;> exact Yields.failure
  | succ n ih =>
    refine ⟨fun least => ?_, fun least left hleft => ?_, ?_, ?_, ?_, fun base hbase => ?_, ?_,
      fun callee => ?_, fun done hdone => ?_, ?_, ?_⟩
    -- A binary expression: its first operand, and the operators behind it.
    · exact ih.negation.bind fun left hleft => ih.binaryRest least left hleft
    · unfold Parser.binaryRest
      -- An operator that binds too loosely ends it, and one that is repeated is refused.
      refine Yields.then fun k => ?_
      split
      · exact Yields.pure hleft
      · split
        · exact Yields.pure hleft
        · refine Yields.then fun _ => (ih.binary _).bind fun right hright => ?_
          have hrest := fun op => ih.binaryRest least _ (bare_infixOp op hleft hright)
          dsimp only
          split
          · refine Yields.then fun k => ?_
            split
            · exact Yields.then fun _ => Yields.failure.bind fun _ (h : False) => h.elim
            · exact hrest _
          · exact hrest _
    · unfold Parser.negation
      -- A negation stands in front of a comparison.
      refine Yields.then fun b => ?_
      split
      · exact Yields.then fun mark => (ih.binary comparison).bind fun operand hx =>
          Yields.pure (bare_prefixOp _ _ hx)
      · exact ih.unary
    · unfold Parser.unary
      -- A sign may stand in front of another one.
      refine Yields.then fun k => ?_
      split
      · exact Yields.then fun mark => ih.unary.bind fun operand hx =>
          Yields.pure (bare_prefixOp _ _ hx)
      · exact ih.power
    · unfold Parser.power
      refine ih.primary.bind fun head hhead => (ih.members head hhead).bind fun base hbase =>
        -- Behind a power stands a signed operand.
        Yields.then fun b => ?_
      split
      · exact Yields.then fun _ => ih.unary.bind fun e he => Yields.pure (bare_infixOp _ hbase he)
      · exact Yields.pure hbase
    · unfold Parser.members
      -- Members, one name at a time.
      refine Yields.then fun k => ?_
      split
      · exact Yields.pure hbase
      · exact Yields.then fun mark => Yields.then fun m => ih.members _ (bare_access _ _ _ hbase)
    · unfold Parser.primary
      -- Primary expressions: numbers, texts, names and calls, parentheses, queries.
      refine Yields.then fun t => ?_
      split
      · refine Yields.then fun _ => ?_
        split
        · exact Yields.pure (bare_literal _ _)
        · exact Yields.then fun _ => Yields.failure
      · refine Yields.then fun _ => ?_
        split
        · exact Yields.pure (bare_literal _ _)
        · exact Yields.then fun _ => Yields.failure
      · exact Yields.then fun _ => Yields.pure (bare_literal _ _)
      · refine Yields.then fun _ => Yields.then fun b => ?_
        split
        · exact ih.callRest t
        · exact Yields.pure (bare_name _ _)
      · exact Yields.then fun _ => (ih.binary 1).bind fun e he => Yields.then fun _ => Yields.pure he
      · exact ih.query
      · exact Yields.then fun _ => Yields.failure
      · exact Yields.reject
    · unfold Parser.callRest
      -- The arguments are bare, and so is the call.
      exact Yields.then fun _ => (ih.arguments [] (fun _ h => by cases h)).bind fun args hargs =>
        Yields.then fun closing => Yields.pure (bare_apply _ _ _ hargs)
    · unfold Parser.arguments
      -- Arguments are gathered in reverse.
      have hrev : ∀ es : List Expr, (∀ e ∈ es, e.Bare .source) → ∀ e ∈ es.reverse, e.Bare .source :=
        fun es hes e he => hes e (List.mem_reverse.1 he)
      refine Yields.then fun k => ?_
      split
      · exact Yields.pure (hrev done hdone)
      · refine (ih.binary 1).bind fun arg harg => Yields.then fun b => ?_
        have hdone' : ∀ e ∈ arg :: done, e.Bare .source := List.forall_mem_cons.2 ⟨harg, hdone⟩
        split
        · exact Yields.then fun _ => ih.arguments _ hdone'
        · refine Yields.then fun b => ?_
          split
          · exact Yields.pure (hrev _ hdone')
          · exact Yields.reject
    · unfold Parser.query
      -- A query holds what its three brackets hold.
      exact Yields.then fun mark => Yields.then fun kind => ih.bracketed.bind fun u hu =>
        Yields.then fun op => ih.bracketed.bind fun x hx => Yields.then fun _ =>
          ih.bracketed.bind fun c hc => Yields.then fun last => Yields.pure (by
            simp only [Expr.Bare, Expr.nodes, List.forall_mem_cons, List.forall_mem_append]
            exact ⟨trivial, ⟨hu, hx⟩, hc⟩)
    · unfold Parser.bracketed
      -- Brackets may be empty.
      refine Yields.then fun _ => Yields.then fun b => ?_
      split
      · exact Yields.then fun _ => Yields.pure (fun _ h => by cases h)
      · exact (ih.binary 1).bind fun e he => Yields.then fun _ => Yields.pure he

/-! ## The token ahead -/

/-- The kind of the token ahead. -/
def kindAhead : List Lexeme → Token.Kind
  | [] => .eof
  | l :: _ => l.token.kind

/-- Looking at the token ahead consumes nothing. -/
private theorem ensures_peek (P : List Lexeme → Prop) :
    Ensures (fun s => P s.ahead) peek (fun t s => P s.ahead ∧ t.kind = kindAhead s.ahead) := by
  intro s hs t s' h
  obtain ⟨ahead, seen, last, errors, maxErrors, reports⟩ := s
  cases ahead with
  | nil => cases h; exact ⟨hs, rfl⟩
  | cons l ls => cases seen <;> cases h <;> exact ⟨hs, rfl⟩

/-- A keyword that is seen is ahead. -/
private theorem ensures_atKeyword (k : Keyword) :
    Ensures (fun _ => True) (atKeyword k) (fun b s => b = true → kindAhead s.ahead = .keyword k) := by
  refine Ensures.bind (Ensures.bind ((ensures_peek fun _ => True).weaken (fun _ _ => trivial)
    fun _ _ h => h.2) (M := fun t s => t.kind = kindAhead s.ahead) fun t => Ensures.pure
      (Q := fun k s => k = kindAhead s.ahead) fun s h => h) fun k' => Ensures.pure fun s h hk => ?_
  rw [← h]
  exact beq_iff_eq.1 hk

/-- An attempt that succeeds ensures what the step does. -/
private theorem Ensures.attempt {pre : ParseState → Prop} {p : Parser α} {post : α → ParseState → Prop}
    (h : Ensures pre p post) :
    Ensures pre (Parser.attempt p) (fun r s => ∀ a, r = some a → post a s) := by
  intro s hs r s' hr a ha
  subst ha
  change (some (p.run s).1, (p.run s).2) = _ at hr
  cases hp : p.run s with
  | mk r s₁ =>
    rw [hp] at hr
    cases hr
    exact h s hs a _ hp

/-! ## Statements -/

/-- Statements that only the last may break off: the list has the latest first. -/
private def Sequence (last : Bool) : List Stmt → Prop
  | [] => True
  | s :: done => s.Marked .source (fun _ => True) last ∧ ∀ r ∈ done, r.Marked .source (fun _ => True) false

/-- Statements in front of a last one. -/
private theorem markedStmts_append {last : Bool} {ss : List Stmt} {s : Stmt}
    (hss : ∀ r ∈ ss, r.Marked .source (fun _ => True) false)
    (hs : s.Marked .source (fun _ => True) last) :
    MarkedStmts .source (fun _ => True) last (ss ++ [s]) := by
  induction ss with
  | nil =>
    refine ⟨?_, trivial⟩
    rwa [List.isEmpty_nil, Bool.and_true]
  | cons r ss ih =>
    obtain ⟨hr, hss⟩ := List.forall_mem_cons.1 hss
    exact ⟨Stmt.Marked.allow hr, MarkedStmts.mono (fun _ _ => trivial) _ (ih hss)⟩

/-- The statements read so far, in their order. -/
private theorem Sequence.marked {last : Bool} {done : List Stmt} (h : Sequence last done) :
    MarkedStmts .source (fun _ => True) last done.reverse := by
  cases done with
  | nil => trivial
  | cons s done =>
    rw [List.reverse_cons]
    exact markedStmts_append (fun r hr => h.2 r (List.mem_reverse.1 hr)) h.1

/-- Statements that may stand anywhere are a sequence. -/
private theorem Sequence.of_all {last : Bool} {done : List Stmt}
    (h : ∀ s ∈ done, s.Marked .source (fun _ => True) false) : Sequence last done := by
  cases done with
  | nil => trivial
  | cons s done =>
    obtain ⟨hs, hdone⟩ := List.forall_mem_cons.1 h
    exact ⟨Stmt.Marked.allow hs, hdone⟩

/-- What is known while the statements of a block are read: all of them may stand anywhere, or the
last one is a return and the block ends here. -/
private def Reading (ofFunction : Bool) (ends : List Keyword) (done : List Stmt) (ahead : List Lexeme) :
    Prop :=
  (∀ s ∈ done, s.Marked .source (fun _ => True) false)
    ∨ (Sequence ofFunction done ∧ closes ends (kindAhead ahead) = true)

/-- All statement parsers yield marked statements at a number of steps. -/
private structure StmtsMarked (n : Nat) : Prop where
  stmts : ∀ ofFunction ends done, (ofFunction = true → ends.contains .endKw = true) →
    Ensures (fun s => Reading ofFunction ends done s.ahead) (stmts n ofFunction ends done)
      (fun ss _ => MarkedStmts .source (fun _ => True) ofFunction ss)
  block : ∀ ofFunction ends, (ofFunction = true → ends.contains .endKw = true) →
    Yields (block n ofFunction ends) (fun b => b.Marked .source (fun _ => True) ofFunction)
  returnStmt : ∀ ofFunction, Ensures (fun _ => True) (returnStmt n ofFunction) (fun s st =>
    s.Marked .source (fun _ => True) ofFunction ∧ ofFunction = true
      ∧ kindAhead st.ahead = .keyword .endKw)
  stmt : Yields (stmt n) (fun s => s.Marked .source (fun _ => True) false)
  condRest : ∀ mark, Yields (condRest n mark) (fun s => s.Marked .source (fun _ => True) false)
  elseRest : ∀ mark, Yields (elseRest n mark) (fun b => MarkedElse .source (fun _ => True) b)
  loop : Yields (loop n) (fun s => s.Marked .source (fun _ => True) false)
  forLoop : Yields (forLoop n) (fun s => s.Marked .source (fun _ => True) false)
  funcDef : Yields (funcDef n) (fun s => s.Marked .source (fun _ => True) false)

/-- An assignment read from its name on is marked. -/
private theorem yields_assignRest (n : Nat) (name : Token) :
    Yields (assignRest n name) (fun a => a.Marked .source (fun _ => True)) :=
  Yields.then fun _ => ((exprsBare n).binary 1).bind fun _ hv =>
    Yields.pure ⟨rfl, trivial, (fun h => nomatch h), hv⟩

/-- An assignment is marked. -/
private theorem yields_assignment (n : Nat) :
    Yields (assignment n) (fun a => a.Marked .source (fun _ => True)) := by
  refine Yields.then fun name => Yields.then fun b => ?_
  split
  · exact yields_assignRest n name
  · exact Yields.reject

/-- The step of a loop is marked. -/
private theorem yields_forStep (n : Nat) :
    Yields (forStep n) (fun a => MarkedClause .source (fun _ => True) a) := by
  refine Yields.then fun b => ?_
  split
  · refine Yields.then fun name => Yields.then fun b => ?_
    split
    · exact (yields_assignRest n name).bind fun a ha => Yields.pure ha
    · exact Yields.then fun _ => Yields.failure
  · exact Yields.pure trivial

/-- A statement that begins with a name is marked. -/
private theorem yields_namedStmt (n : Nat) :
    Yields (namedStmt n) (fun s => s.Marked .source (fun _ => True) false) := by
  refine Yields.then fun name => Yields.then fun k => ?_
  split
  · exact (yields_assignRest n name).bind fun a ha => Yields.pure ha
  · exact ((exprsBare n).callRest name).bind fun e he => Yields.pure he
  · exact Yields.then fun _ => Yields.then fun m => Yields.then fun _ =>
      ((exprsBare n).binary 1).bind fun v hv =>
        Yields.pure ⟨rfl, bare_access .dotted _ _ (bare_name _ _), hv⟩
  · exact Yields.then fun _ => Yields.failure

/-- A definition of a bitfield is marked. -/
private theorem yields_bitfieldDef (n : Nat) :
    Yields (bitfieldDef n) (fun s => s.Marked .source (fun _ => True) false) := by
  unfold bitfieldDef
  refine Yields.then fun mark => Yields.then fun name => Yields.then fun members => ?_
  dsimp only
  split
  · exact Yields.then fun _ => Yields.then fun _ => Yields.then fun _ => Yields.pure trivial
  · exact Yields.then fun _ => Yields.then fun _ => Yields.pure trivial

/-- A definition of an enumeration is marked. -/
private theorem yields_enumDef (n : Nat) :
    Yields (enumDef n) (fun s => s.Marked .source (fun _ => True) false) := by
  unfold enumDef
  refine Yields.then fun mark => Yields.then fun name => Yields.then fun members => ?_
  dsimp only
  -- Complained about or not, the members make an enumeration or a fault.
  split
  · refine Yields.then fun _ => Yields.then fun _ => Yields.then fun _ => ?_
    split
    · exact Yields.pure ⟨trivial, fun _ _ => trivial⟩
    · exact Yields.then fun _ => Yields.failure
  · refine Yields.then fun _ => Yields.then fun _ => ?_
    split
    · exact Yields.pure ⟨trivial, fun _ _ => trivial⟩
    · exact Yields.then fun _ => Yields.failure

/-- A require is marked. -/
private theorem yields_requireStmt :
    Yields requireStmt (fun s => s.Marked .source (fun _ => True) false) :=
  Yields.then fun _ => Yields.then fun _ => Yields.pure trivial

/-- A loop behind the test of its header. -/
def forBody (n : Nat) (mark : Token) (init : Option Assign) (test : Option Expr) : Parser Stmt := do
  let _ ← expectSymbol .semicolon .unexpectedToken "expected ';' after for condition"
  let step ← forStep n
  let body ← Parser.block n false [.endKw]
  expectEnd "for" mark.span
  let last ← lastSpan
  pure (.forLoop (mark.span.cover last) init test step body)

/-- A loop behind the first clause of its header. -/
def forRest (n : Nat) (mark : Token) (init : Option Assign) : Parser Stmt := do
  let _ ← expectSymbol .semicolon .unexpectedToken "expected ';' after for initializer"
  let test ← if ← atSymbol .semicolon then pure none else some <$> expr n
  forBody n mark init test

/-- Every number of steps yields marked statements. -/
private theorem stmtsMarked (n : Nat) : StmtsMarked n := by
  induction n with
  | zero =>
    -- Without steps, every parser gives up.
    constructor <;> intros <;> exact Ensures.failure
  | succ n ih =>
    -- A loop header behind its first clause.
    have hfor : ∀ (mark : Token) (init : Option Assign), MarkedClause .source (fun _ => True) init →
        Yields (forRest n mark init) (fun s => s.Marked .source (fun _ => True) false) := by
      intro mark init hinit
      have hbody : ∀ test, BareOption .source test → Yields (forBody n mark init test)
          -- The rest of the header and the body, all of which are marked with everything seen.
          (fun s => s.Marked .source (fun _ => True) false) := fun test htest =>
        Yields.then fun _ => (yields_forStep n).bind fun st hst => (ih.block false _ (by simp)).bind
          fun b hb => Yields.then fun _ => Yields.then fun _ => Yields.pure
            ⟨hinit, htest, MarkedClause.mono (fun _ _ => trivial) hst, fun _ _ _ => trivial,
              Block.Marked.mono (fun _ _ => trivial) b hb⟩
      refine Yields.then fun _ => Yields.then fun b => ?_
      dsimp only
      split
      · exact Yields.bind (M := BareOption .source) (Yields.pure fun _ h => by cases h) hbody
      · exact Yields.bind (M := BareOption .source) (((exprsBare n).binary 1).map fun _ h => h) hbody
    refine ⟨fun ofFunction ends done hends => ?_, fun ofFunction ends hends => ?_, fun ofFunction => ?_,
      ?_, fun mark => ?_, fun mark => ?_, ?_, ?_, ?_⟩
    · -- The statements of a block: behind a return the block ends at once.
      unfold Parser.stmts
      refine Ensures.bind (ensures_peek fun ahead => Reading ofFunction ends done ahead) fun t => ?_
      split
      case isTrue =>
        exact Ensures.pure fun s hs => (hs.1.elim Sequence.of_all (·.1)).marked
      case isFalse hopen =>
        -- A statement that is not marked is a return, and the block is closed behind it.
        by_cases hall : ∀ s ∈ done, s.Marked .source (fun _ => True) false
        case neg =>
          intro s ⟨hs, hk⟩
          rcases hs with hs | ⟨_, hc⟩
          · exact absurd hs hall
          · rw [hk] at hopen
            exact absurd hc hopen
        case pos =>
          -- A return, whose failure leaves the statements as they were.
          split
          case isTrue =>
            refine Ensures.bind ((ih.returnStmt ofFunction).attempt.weaken (fun _ _ => trivial)
              fun _ _ h => h) fun r => ?_
            split
            -- The return was read, so the block has to be closed by what is ahead.
            case h_1 s =>
              refine (ih.stmts ofFunction ends (s :: done) hends).weaken (fun st hst => .inr ?_)
                fun _ _ h => h
              obtain ⟨hs, hf, hk⟩ := hst s rfl
              refine ⟨⟨hs, hall⟩, ?_⟩
              rw [hk]
              exact hends hf
            -- The return failed, so nothing is added to the statements.
            case h_2 =>
              exact (ih.stmts ofFunction ends done hends).weaken (fun _ _ => .inl hall) fun _ _ h => h
          case isFalse =>
            refine Ensures.bind (Ensures.attempt (ih.stmt.weaken (fun _ _ => trivial) fun _ _ h => h))
              fun r => ?_
            split
            -- One more marked statement.
            case h_1 s =>
              exact (ih.stmts ofFunction ends (s :: done) hends).weaken
                (fun _ hst => .inl (List.forall_mem_cons.2 ⟨hst s rfl, hall⟩)) fun _ _ h => h
            -- The statement failed, and the parser goes on where it finds its feet again.
            case h_2 =>
              exact Ensures.bind (M := fun _ _ => True) (fun _ _ _ _ _ => trivial) fun _ =>
                (ih.stmts ofFunction ends done hends).weaken (fun _ _ => .inl hall) fun _ _ h => h
    -- A block begins with no statements, and its statements are marked.
    · refine Yields.then fun first => Ensures.bind ((ih.stmts ofFunction ends [] hends).weaken
        (fun _ _ => .inl (fun _ h => by cases h)) fun _ _ h => h) fun body => ?_
      exact Ensures.bind (M := fun _ _ => MarkedStmts .source (fun _ => True) ofFunction body)
        (fun _ h _ _ _ => h) fun last => Ensures.pure fun _ h => ⟨rfl, h⟩
    · unfold Parser.returnStmt
      -- A return stands in a function and is followed by the end.
      refine Ensures.bind (M := fun _ _ => True) (fun _ _ _ _ _ => trivial) fun mark => ?_
      refine Ensures.bind (Ensures.attempt ((exprsBare n).binary 1)) fun r => ?_
      split
      case h_1 =>
        exact Ensures.bind (M := fun _ _ => True) (fun _ _ _ _ _ => trivial) fun _ => Ensures.failure
      case h_2 v =>
        -- The value is known to be bare in whatever state it was read, so it can be taken out.
        by_cases hv : v.Bare .source
        case neg => exact fun s hs => absurd (hs v rfl) hv
        case pos =>
          refine Ensures.bind ((ensures_atKeyword .endKw).weaken (fun _ _ => trivial) fun _ _ h => h)
            fun closed => ?_
          split
          case isTrue hclosed =>
            obtain ⟨hf, hc⟩ := Bool.and_eq_true_iff.1 hclosed
            exact Ensures.pure fun s hs => ⟨⟨hf, hv⟩, hf, hs hc⟩
          case isFalse =>
            exact Ensures.bind (M := fun _ _ => True) (fun _ _ _ _ _ => trivial)
              fun _ => Ensures.failure
    -- Each kind of statement is chosen by the token ahead.
    · unfold Parser.stmt
      refine Yields.then fun t => ?_
      split
      · exact yields_namedStmt n
      · exact Yields.then fun mark => ih.condRest mark
      · exact ih.loop
      · exact ih.forLoop
      · exact ih.funcDef
      · exact yields_bitfieldDef n
      · exact yields_enumDef n
      · exact yields_requireStmt
      · exact Yields.then fun _ => Yields.pure trivial
      · exact Yields.then fun _ => Yields.pure trivial
      · exact Yields.failure
      · exact Yields.then fun _ => Yields.failure
    -- A condition with its branches.
    · unfold Parser.condRest
      exact ((exprsBare n).binary 1).bind fun c hc => (ih.block false _ (by simp)).bind fun t ht =>
        (ih.elseRest mark).bind fun f hf => Yields.then fun _ => Yields.pure ⟨hc, ht, hf⟩
    · unfold Parser.elseRest
      -- Another condition, a last branch or the end.
      refine Yields.then fun b => ?_
      split
      · exact Yields.then fun inner => (ih.condRest inner).bind fun s hs =>
          Yields.pure ⟨rfl, hs, trivial⟩
      · refine Yields.then fun b => ?_
        split
        · exact Yields.then fun _ => (ih.block false _ (by simp)).bind fun b hb =>
            Yields.then fun _ => Yields.pure hb
        · exact Yields.then fun _ => Yields.pure trivial
    · unfold Parser.loop
      -- A loop with its condition and its body.
      exact Yields.then fun mark => ((exprsBare n).binary 1).bind fun c hc =>
        (ih.block false _ (by simp)).bind fun b hb => Yields.then fun _ => Yields.then fun _ =>
          Yields.pure ⟨hc, hb⟩
    · unfold Parser.forLoop
      -- The first clause of a loop header may be absent.
      refine Yields.then fun mark => Yields.then fun b => ?_
      dsimp only
      split
      · refine Yields.bind (M := MarkedClause .source fun _ => True) (Yields.pure trivial) ?_
        exact hfor mark
      · refine Yields.bind (M := MarkedClause .source fun _ => True)
          ((yields_assignment n).map fun _ ha => ha) ?_
        exact hfor mark
    · unfold Parser.funcDef
      -- The body of a function may end in a return.
      exact Yields.then fun mark => Yields.then fun name => Yields.then fun _ => Yields.then fun ps =>
        Yields.then fun _ => (ih.block true _ fun _ => rfl).bind fun b hb => Yields.then fun _ =>
          Yields.then fun _ => Yields.pure ⟨fun _ _ => trivial,
            Block.Marked.mono (fun _ _ => trivial) b hb⟩

end Parser

/-! ## Files -/

/-- Every file gives a marked program, as far as it could be read. -/
theorem parse_marked (file maxErrors : Nat) (contents : Text) :
    (parse file maxErrors contents).program.Marked .source (fun _ => True) false := by
  have hprogram : ∀ n, Parser.Yields (Parser.program n)
      (fun b => b.Marked .source (fun _ => True) false) := fun n =>
    Parser.Yields.then fun _ => ((Parser.stmtsMarked n).block false [] nofun).bind fun b hb =>
      Parser.Yields.then fun _ => Parser.Yields.pure (by cases b; exact hb)
  simp only [parse, parseLexemes]
  split
  case h_1 program s hrun => exact hprogram _ _ trivial _ _ hrun
  case h_2 => exact ⟨rfl, trivial⟩

/-! ## Requires -/

/-- Statements of which none returns. -/
private theorem markedStmts_of_forall {D : Dialect} {last : Bool} {ss rest : List Stmt}
    (hss : ∀ s ∈ ss, s.Marked D (fun _ => True) false)
    (hrest : MarkedStmts D (fun _ => True) last rest) :
    MarkedStmts D (fun _ => True) last (ss ++ rest) := by
  induction ss with
  | nil => exact hrest
  | cons s ss ih =>
    obtain ⟨hs, hss⟩ := List.forall_mem_cons.1 hss
    exact ⟨Stmt.Marked.allow hs, MarkedStmts.mono (fun _ _ => trivial) _ (ih hss)⟩

/-- Where nothing may return, each statement is marked on its own. -/
private theorem MarkedStmts.forall {D : Dialect} {ss : List Stmt}
    (h : MarkedStmts D (fun _ => True) false ss) : ∀ s ∈ ss, s.Marked D (fun _ => True) false := by
  induction ss with
  | nil => exact fun _ hs => nomatch hs
  | cons s ss ih =>
    obtain ⟨hs, hss⟩ := h
    refine List.forall_mem_cons.2 ⟨hs, ih (MarkedStmts.mono (fun n _ => ?_) _ hss)⟩
    exact Stmt.seenBehind_all s n

/-- An expression stays bare without requires. -/
private theorem Expr.Bare.full {e : Expr} (h : e.Bare .source) : e.Bare .full := by
  intro x hx
  have hb := h x hx
  cases x <;> exact hb

/-- An assignment stays marked without requires. -/
private theorem Assign.Marked.full {seen : Text → Prop} {a : Assign} (h : a.Marked .source seen) :
    a.Marked .full seen := by
  obtain ⟨i, v⟩ := a
  obtain ⟨hb, hn, hd, hv⟩ := h
  exact ⟨hb, hn, hd, hv.full⟩

/-- A clause stays marked without requires. -/
private theorem MarkedClause.full {seen : Text → Prop} {a : Option Assign}
    (h : MarkedClause .source seen a) : MarkedClause .full seen a := by
  cases a with
  | none => trivial
  | some a => exact Assign.Marked.full h

/-- An include that gives statements of which none returns. -/
private def Include.Marks (step : Include) : Prop :=
  ∀ r sp p dir, ∀ s ∈ (step r sp p dir).1, s.Marked .full (fun _ => True) false

mutual

/-- Replacing the requires of a statement gives marked statements. -/
private theorem Stmt.requires_marked {step : Include} (hstep : Include.Marks step) (dir : Text)
    (r : Requires) {last : Bool} : (s : Stmt) → s.Marked .source (fun _ => True) last →
      MarkedStmts .full (fun _ => True) last (s.requires step dir r).1
  | .require sp p, _ => by
    -- The required file has statements of its own, and none is a return.
    have h : MarkedStmts .full (fun _ => True) last ((step r sp p dir).1 ++ []) :=
      markedStmts_of_forall (hstep r sp p dir) trivial
    rwa [List.append_nil] at h
  | .block b, h => ⟨Block.requires_marked hstep dir r b h, trivial⟩
  | .cond _ _ t f, ⟨hc, ht, hf⟩ =>
    ⟨⟨hc.full, Block.requires_marked hstep dir r t ht, requiresOption_marked hstep dir _ f hf⟩, trivial⟩
  -- The bodies of loops are followed like blocks.
  | .loop _ _ b, ⟨hc, hb⟩ => ⟨⟨hc.full, Block.requires_marked hstep dir r b hb⟩, trivial⟩
  -- The clauses of a header stay as they are.
  | .forLoop _ i c st b, ⟨hi, hc, hst, hd, hb⟩ =>
    ⟨⟨hi.full, fun x hx => by have := hc x hx; cases x <;> exact this, hst.full, hd,
      Block.Marked.mono (fun _ _ => trivial) _
        (Block.requires_marked hstep dir r b (Block.Marked.mono (fun n _ => headerSeenBehind_all i st n) b hb))⟩, trivial⟩
  -- A function is followed into its body.
  | .funcDef _ _ _ _ b, ⟨hp, hb⟩ =>
    ⟨⟨hp, Block.Marked.mono (fun _ _ => trivial) _
      (Block.requires_marked hstep dir r b (Block.Marked.mono (fun _ _ => .inl (.inl trivial)) b hb))⟩,
      trivial⟩
  -- No other statement holds a require.
  | .eval _ _, h => ⟨Expr.Bare.full h, trivial⟩
  | .assign a, h => ⟨@Assign.Marked.full (fun _ => True) a h, trivial⟩
  | .assignMember _ _ _, ⟨hm, ht, hv⟩ => ⟨⟨hm, ht.full, hv.full⟩, trivial⟩
  | .ret _ _, ⟨hl, hv⟩ => ⟨⟨by rw [hl]; rfl, hv.full⟩, trivial⟩
  | .leave _, _ | .code _ _, _ | .bitfieldDef _ _, _ => ⟨trivial, trivial⟩
  | .enumDef _ _, _ => ⟨⟨trivial, fun _ _ => trivial⟩, trivial⟩

/-- Replacing the requires of statements gives marked statements. -/
private theorem requiresStmts_marked {step : Include} (hstep : Include.Marks step) (dir : Text)
    (r : Requires) {last : Bool} : (ss : List Stmt) → MarkedStmts .source (fun _ => True) last ss →
      MarkedStmts .full (fun _ => True) last (requiresStmts step dir r ss).1
  | [], _ => trivial
  | s :: ss, ⟨hs, hss⟩ => by
    -- A statement is the last one if none is behind it.
    have hs' := Stmt.requires_marked hstep dir r s hs
    have hss' := requiresStmts_marked hstep dir (s.requires step dir r).2 ss
      (MarkedStmts.mono (fun n _ => s.seenBehind_all n) ss hss)
    cases ss with
    | nil =>
      simp only [List.isEmpty_nil, Bool.and_true] at hs'
      simpa only [requiresStmts, List.append_nil] using hs'
    | cons s₁ ss =>
      simp only [List.isEmpty_cons, Bool.and_false] at hs'
      -- Statements that are no last ones can be followed by others.
      exact markedStmts_of_forall hs'.forall hss'

/-- Replacing the requires of a block gives a marked block. -/
private theorem Block.requires_marked {step : Include} (hstep : Include.Marks step) (dir : Text)
    (r : Requires) {last : Bool} : (b : Block) → b.Marked .source (fun _ => True) last →
      (b.requires step dir r).1.Marked .full (fun _ => True) last
  | .mk _ ss _, ⟨ho, hss⟩ => ⟨ho, requiresStmts_marked hstep dir r ss hss⟩

/-- Replacing the requires of an else block gives a marked block. -/
private theorem requiresOption_marked {step : Include} (hstep : Include.Marks step) (dir : Text)
    (r : Requires) : (b : Option Block) → MarkedElse .source (fun _ => True) b →
      MarkedElse .full (fun _ => True) (requiresOption step dir r b).1
  | none, _ => trivial
  | some b, h => Block.requires_marked hstep dir r b h

end

/-- An included file gives statements of which none returns, however deep files may be nested. -/
private theorem includeWithin_marks (disk : Disk) (maxErrors fuel : Nat) :
    Include.Marks (includeWithin disk maxErrors fuel) := by
  induction fuel with
  -- Without fuel, nothing is included.
  | zero => exact fun _ _ _ _ _ hs => nomatch hs
  | succ fuel ih =>
    intro r sp p dir s hs
    simp only [includeWithin] at hs
    split at hs
    -- A file that is not found or was included gives no statements.
    · exact nomatch hs
    · split at hs
      · exact nomatch hs
      · rename_i f _
        -- A file that is included was parsed, and its own requires are followed.
        have hp := parse_marked (r.files.add f).1 maxErrors f.content
        generalize (parse (r.files.add f).1 maxErrors f.content).program = b at hs hp
        obtain ⟨os, ss, sp⟩ := b
        exact (requiresStmts_marked ih _ _ ss hp.2).forall s hs

/-- A program with its requires replaced is what declarations are looked for in. -/
theorem Block.resolve_sourced (disk : Disk) (maxErrors : Nat) (files : FileSet) (reporter : Reporter)
    (file : SourceFile) {b : Block} (hb : b.Marked .source (fun _ => True) false) :
    (b.resolve disk maxErrors files reporter file).1.Sourced :=
  Block.requires_marked (includeWithin_marks disk maxErrors _) _ _ b hb

end AisScript
