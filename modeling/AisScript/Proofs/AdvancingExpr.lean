import AisScript.Proofs.Advancing

/-!
# Advancing through expressions

The guarded expression parsers do what the parsers do, at any number of steps that is enough for the lexemes
ahead.  An expression that is read nests between the place where the parser stood and the place last consumed;
so do the operands that were read when an operator or a comma follows.

* `Parser.ExprsAlike`   all expression parsers at one number of steps
* `Parser.exprsAlike`   every number of steps
-/

namespace AisScript.Parser

/-! ## Results -/

/-- The parts of a result nest between an offset and the place last consumed. -/
def Leaves {α : Type} (file lo : Nat) (parts : α → List Node) : α → List Lexeme → Span → Prop :=
  fun a _ last => Laid file lo last.stop (parts a)

/-- Results that are expressions. -/
abbrev LeavesExpr (file lo : Nat) : Expr → List Lexeme → Span → Prop := Leaves file lo fun e => [.expr e]

/-- All expression parsers at a number of steps.  A constant says how many steps a parser needs in front of the next
token. -/
structure ExprsAlike (g : Guard) (file length n : Nat) : Prop where
  binary : ∀ {as last} least, Room file length 6 n as last →
    Alike True as last (g.binary n least) (binary n least) (LeavesExpr file last.stop)
  binaryRest : ∀ {as last} least left lo, Room file length 1 n as last → Laid file lo last.stop [.expr left] →
    Alike True as last (g.binaryRest n least left) (binaryRest n least left) (LeavesExpr file lo)
  negation : ∀ {as last}, Room file length 5 n as last →
    Alike True as last (g.negation n) (negation n) (LeavesExpr file last.stop)
  unary : ∀ {as last}, Room file length 4 n as last →
    Alike True as last (g.unary n) (unary n) (LeavesExpr file last.stop)
  power : ∀ {as last}, Room file length 3 n as last →
    Alike True as last (g.power n) (power n) (LeavesExpr file last.stop)
  members : ∀ {as last} base lo, Room file length 1 n as last → Laid file lo last.stop [.expr base] →
    Alike True as last (g.members n base) (members n base) (LeavesExpr file lo)
  primary : ∀ {as last}, Room file length 2 n as last →
    Alike True as last (g.primary n) (primary n) (LeavesExpr file last.stop)
  callRest : ∀ {l ls last} callee lo, Room file length 1 n (l :: ls) last → l.token.kind ≠ .eof →
    callee.span.Fills file lo last.stop →
    Alike True (l :: ls) last (g.callRest n callee) (callRest n callee) (LeavesExpr file lo)
  arguments : ∀ {as last} done lo, Room file length 7 n as last → lo ≤ last.stop →
    Laid file lo last.stop (done.reverse.map .expr) →
    Alike True as last (g.arguments n done) (arguments n done) (Leaves file lo fun es => es.map .expr)
  query : ∀ {l ls last}, Room file length 1 n (l :: ls) last → l.token.kind ≠ .eof →
    Alike True (l :: ls) last (g.query n) (query n) (LeavesExpr file last.stop)
  bracketed : ∀ {as last}, Room file length 1 n as last →
    Alike True as last (g.bracketed n) (bracketed n) fun e bs last' =>
      Leaves file last.stop (fun e => e.toList.map .expr) e bs last' ∧ last'.Fills file last.stop last'.stop

variable {g : Guard} {file length n : Nat} {as ls : List Lexeme} {l : Lexeme} {last : Span}

/-- No step is made with none left. -/
theorem Room.absurd {few : Nat} {P : Prop} (h : Room file length (few + 1) 0 as last) : P := by
  have hsteps := h.steps
  omega

/-- A literal is one token. -/
private theorem laid_token {few : Nat} {e : Expr}
    (h : Room file length few n (l :: ls) last) (hkind : l.token.kind ≠ .eof)
    (hspan : e.span = l.token.span) (hparts : e.children = []) :
    Laid file last.stop l.token.span.stop [.expr e] :=
  .leaf (hspan ▸ h.fills hkind) (by rw [Node.held, hparts, List.map_nil])

namespace ExprsAlike

section Steps

variable (ih : ExprsAlike g file length n)

include ih

/-- Operators and right operands. -/
private theorem binaryRest_succ {least : Nat} {left : Expr} {lo : Nat}
    (h : Room file length 1 (n + 1) as last) (hleft : Laid file lo last.stop [.expr left]) :
    Alike True as last (g.binaryRest (n + 1) least left) (Parser.binaryRest (n + 1) least left) (LeavesExpr file lo) := by
  obtain ⟨l, ls, rfl⟩ := h.exists_cons
  unfold Guard.binaryRest Parser.binaryRest
  -- The word ahead decides: no operator ends the loop.
  refine .peekKind ?_
  cases hop : infixOf? l.token.kind with
  | none => exact .pure hleft
  | some x =>
    obtain ⟨op, strength⟩ := x
    -- The end mark is no operator, so the operator can be consumed.
    have hkind : l.token.kind ≠ .eof := fun hk => by
      rw [hk] at hop
      cases hop
    have hnext := h.next hkind
    -- An operator that binds too loosely is left for the caller.
    refine .ite (fun _ => .pure hleft) fun _ => .advance hkind ?_
    refine (ih.binary _ (hnext.less (by omega))).bind fun right bs last₁ hc hright => ?_
    have hroom := hnext.after hc
    have hlo := (h.fills hkind).lt
    -- Both operands and all between them lie one behind the other.
    have hboth : Laid file lo last₁.stop [.expr (.infixOp op left right)] :=
      hleft.infixOp op (hright.widen (Nat.le_of_lt hlo) (Nat.le_refl _))
    have hrest := ih.binaryRest least _ lo (hroom.less (by omega)) hboth
    obtain ⟨l', ls', rfl⟩ := hroom.exists_cons
    dsimp only
    -- Behind a comparison another comparison is reported in both.
    refine .ite (fun _ => .peekKind ?_) fun _ => hrest
    exact .ite (fun _ => .complain .failure_bind) fun _ => hrest

/-- `not` and what it stands in front of. -/
private theorem negation_succ (h : Room file length 5 (n + 1) as last) :
    Alike True as last (g.negation (n + 1)) (Parser.negation (n + 1)) (LeavesExpr file last.stop) := by
  obtain ⟨l, ls, rfl⟩ := h.exists_cons
  unfold Guard.negation Parser.negation
  refine .atKind (by simp) (fun hkind => ?_) fun _ => ih.unary (h.less (by omega))
  refine .advance hkind ((ih.binary _ ((h.next hkind).less (by omega))).bind fun x bs last₁ hc hx => ?_)
  exact .pure (.valued rfl rfl (h.fills hkind) hx)

/-- The other prefixes. -/
private theorem unary_succ (h : Room file length 4 (n + 1) as last) :
    Alike True as last (g.unary (n + 1)) (Parser.unary (n + 1)) (LeavesExpr file last.stop) := by
  obtain ⟨l, ls, rfl⟩ := h.exists_cons
  unfold Guard.unary Parser.unary
  refine .peekKind ?_
  cases hop : prefixOf? l.token.kind with
  | none => exact ih.power (h.less (by omega))
  | some op =>
    have hkind : l.token.kind ≠ .eof := fun hk => by
      rw [hk] at hop
      cases hop
    refine .advance hkind ((ih.unary ((h.next hkind).less (by omega))).bind fun x bs last₁ hc hx => ?_)
    exact .pure (.valued rfl rfl (h.fills hkind) hx)

/-- A base with members, and an exponent. -/
private theorem power_succ (h : Room file length 3 (n + 1) as last) :
    Alike True as last (g.power (n + 1)) (Parser.power (n + 1)) (LeavesExpr file last.stop) := by
  unfold Guard.power Parser.power
  refine (ih.primary (h.less (by omega))).bind fun head bs last₁ hc₁ hhead => ?_
  refine (ih.members head last.stop ((h.after hc₁).less (by omega)) hhead).bind fun base cs last₂ hc₂ hbase => ?_
  have hroom := (h.after hc₁).after hc₂
  obtain ⟨l, ls, rfl⟩ := hroom.exists_cons
  refine .atKind (by simp) (fun hkind => ?_) fun _ => .pure hbase
  refine .advance hkind ((ih.unary ((hroom.next hkind).less (by omega))).bind fun x ds last₃ hc₃ hx => ?_)
  exact .pure (hbase.infixOp _ (hx.widen (Nat.le_of_lt (hroom.fills hkind).lt) (Nat.le_refl _)))

/-- Members of a base. -/
private theorem members_succ {base : Expr} {lo : Nat} (h : Room file length 1 (n + 1) as last)
    (hbase : Laid file lo last.stop [.expr base]) :
    Alike True as last (g.members (n + 1) base) (Parser.members (n + 1) base) (LeavesExpr file lo) := by
  obtain ⟨l, ls, rfl⟩ := h.exists_cons
  unfold Guard.members Parser.members
  refine .peekKind ?_
  -- No access symbol ends the loop.
  cases ha : accessOf? l.token.kind with
  | none => exact .pure hbase
  | some a =>
    have hkind : l.token.kind ≠ .eof := fun hk => by
      rw [hk] at ha
      cases ha
    have hnext := h.next hkind
    obtain ⟨m, ms, rfl⟩ := hnext.exists_cons
    -- The name of the member stands behind the symbol; both are covered by the access.
    refine .advance hkind (.expectName fun hname => ?_)
    have hm := (hnext.fills hname).widen (Nat.le_of_lt (h.fills hkind).lt) (Nat.le_refl _)
    exact ih.members _ lo ((hnext.next hname).less (by omega)) (hbase.access a _ hm)

/-- A literal, a name, a call, a query or an expression in parentheses. -/
private theorem primary_succ (h : Room file length 2 (n + 1) as last) :
    Alike True as last (g.primary (n + 1)) (Parser.primary (n + 1)) (LeavesExpr file last.stop) := by
  obtain ⟨l, ls, rfl⟩ := h.exists_cons
  unfold Guard.primary Parser.primary
  refine .peek ?_
  -- The word ahead decides what is read.
  split <;> try simp only [*]
  -- Integers, which may be too large.
  · have hkind : l.token.kind ≠ .eof := by simp [*]
    refine .advance hkind ?_
    cases intValue? l.token.text with
    | none => exact .report .failure
    | some v => exact .pure (laid_token h hkind rfl rfl)
  -- Floats, in the same way.
  · have hkind : l.token.kind ≠ .eof := by simp [*]
    refine .advance hkind ?_
    cases Double.ofLiteral? l.token.text with
    | none => exact .report .failure
    | some v => exact .pure (laid_token h hkind rfl rfl)
  -- Strings are read as they are.
  · have hkind : l.token.kind ≠ .eof := by simp [*]
    exact .advance hkind (.pure (laid_token h hkind rfl rfl))
  -- A name, and a call if a parenthesis follows.
  · have hkind : l.token.kind ≠ .eof := by simp [*]
    have hnext := h.next hkind
    obtain ⟨m, ms, rfl⟩ := hnext.exists_cons
    refine .advance hkind (.atKind (by simp) (fun hk => ?_) fun _ => .pure (laid_token h hkind rfl rfl))
    exact ih.callRest l.token last.stop (hnext.less (by omega)) hk (h.fills hkind)
  -- An expression in parentheses, which has its own place inside them.
  · have hkind : l.token.kind ≠ .eof := by simp [*]
    have hnext := h.next hkind
    refine .advance hkind ((ih.binary _ (hnext.less (by omega))).bind fun inner bs last₁ hc hinner => ?_)
    have hroom := hnext.after hc
    obtain ⟨m, ms, rfl⟩ := hroom.exists_cons
    refine .expectSymbol fun hk => .pure ?_
    exact hinner.widen (Nat.le_of_lt (h.fills hkind).lt) (Nat.le_of_lt (hroom.fills hk).lt)
  -- A query, a token that the lexer has reported, and anything else.
  · exact ih.query (h.less (by omega)) (by simp [*])
  · exact .advance (by simp [*]) .failure
  · exact .reject

/-- The arguments of a call in their parentheses. -/
private theorem callRest_succ {callee : Token} {lo : Nat} (h : Room file length 1 (n + 1) (l :: ls) last)
    (hkind : l.token.kind ≠ .eof) (hcallee : callee.span.Fills file lo last.stop) :
    Alike True (l :: ls) last (g.callRest (n + 1) callee) (Parser.callRest (n + 1) callee) (LeavesExpr file lo) := by
  have hnext := h.next hkind
  unfold Guard.callRest Parser.callRest
  -- The arguments lie between the two parentheses.
  refine .advance hkind ((ih.arguments [] l.token.span.stop (hnext.less (by omega)) (Nat.le_refl _) .nil).bind
    fun args bs last₁ hc hargs => ?_)
  have hroom := hnext.after hc
  have hle := hnext.stop_le hc
  obtain ⟨m, ms, rfl⟩ := hroom.exists_cons
  refine .expectSymbol fun hk => .pure ?_
  have hopen := (h.fills hkind).order
  have hclose := hroom.fills hk
  have horder := hclose.order
  -- From the name of the function to the closing parenthesis.
  exact .marked rfl hcallee (hclose.widen (by omega) (Nat.le_refl _)) rfl (hargs.widen (by omega) (by omega))

/-- Arguments with commas between them. -/
private theorem arguments_succ {done : List Expr} {lo : Nat} (h : Room file length 7 (n + 1) as last)
    (hlo : lo ≤ last.stop) (hdone : Laid file lo last.stop (done.reverse.map .expr)) :
    Alike True as last (g.arguments (n + 1) done) (Parser.arguments (n + 1) done)
      (Leaves file lo fun es => es.map .expr) := by
  obtain ⟨l, ls, rfl⟩ := h.exists_cons
  unfold Guard.arguments Parser.arguments
  -- A closing parenthesis or the end mark ends the arguments.
  refine .peekKind (.ite (fun _ => .pure hdone) fun _ => ?_)
  refine (ih.binary 1 (h.less (by omega))).bind fun arg bs last₁ hc harg => ?_
  have hroom := h.after hc
  have hle := h.stop_le hc
  -- The new argument stands behind those that are done.
  have hmore : Laid file lo last₁.stop ((arg :: done).reverse.map .expr) := by
    rw [List.reverse_cons, List.map_append]
    exact hdone.append harg hlo hle
  -- An argument takes at least one token, so the recursion goes down.
  have hlt : bs.length < (l :: ls).length := Room.length_lt hc harg.lt
  obtain ⟨m, ms, rfl⟩ := hroom.exists_cons
  refine .atKind (by simp) (fun hkind => ?_) fun _ => .atKind (by simp) (fun _ => .pure hmore) fun _ => .reject
  have hcomma := hroom.fills hkind
  exact .advance hkind (ih.arguments _ lo ((hroom.next hkind).less (by omega)) (by have := hcomma.lt; omega)
    (hmore.widen (Nat.le_refl _) (Nat.le_of_lt hcomma.lt)))

/-- A query with its three brackets. -/
private theorem query_succ (h : Room file length 1 (n + 1) (l :: ls) last) (hkind : l.token.kind ≠ .eof) :
    Alike True (l :: ls) last (g.query (n + 1)) (Parser.query (n + 1)) (LeavesExpr file last.stop) := by
  have hmark := h.next hkind
  obtain ⟨k, ks, rfl⟩ := hmark.exists_cons
  unfold Guard.query Parser.query
  -- The mark, and the kind of the query.
  refine .advance hkind (.expectName fun hkName => ?_)
  have hname := hmark.next hkName
  have hle := (hmark.fills hkName).lt
  -- Each bracket leaves room for the next one.
  refine (ih.bracketed (hname.less (by omega))).bind fun unit bs last₁ hc₁ hunit => ?_
  have hroom₁ := hname.after hc₁
  have hle₁ := hname.stop_le hc₁
  obtain ⟨o, os, rfl⟩ := hroom₁.exists_cons
  refine .expectName fun hoName => ?_
  have hop := hroom₁.next hoName
  have hle₂ := (hroom₁.fills hoName).lt
  refine (ih.bracketed (hop.less (by omega))).bind fun operand cs last₂ hc₂ hoperand => ?_
  have hroom₂ := hop.after hc₂
  have hle₃ := hop.stop_le hc₂
  obtain ⟨w, ws, rfl⟩ := hroom₂.exists_cons
  refine .expect (by simp) fun hwKind => ?_
  have hwhere := hroom₂.next hwKind
  have hle₄ := (hroom₂.fills hwKind).lt
  refine (ih.bracketed (hwhere.less (by omega))).bind fun condition ds last₃ hc₃ hcondition => .lastSpan (.pure ?_)
  have hle₅ := hwhere.stop_le hc₃
  -- The three brackets stand one behind the other, behind the mark.
  have hfirst := hunit.1.append (hoperand.1.widen (Nat.le_of_lt hle₂) (Nat.le_refl _)) (by omega) (by omega)
  have hall := hfirst.append (hcondition.1.widen (Nat.le_of_lt hle₄) (Nat.le_refl _)) (by omega) (by omega)
  refine .marked rfl (h.fills hkind) (hcondition.2.widen (by omega) (Nat.le_refl _)) rfl ?_
  rw [Node.held, Expr.children, List.map_append, List.map_append]
  exact hall.widen (by omega) (Nat.le_refl _)

/-- A bracket. -/
private theorem bracketed_succ (h : Room file length 1 (n + 1) as last) :
    Alike True as last (g.bracketed (n + 1)) (Parser.bracketed (n + 1)) fun e bs last' =>
      Leaves file last.stop (fun e => e.toList.map .expr) e bs last' ∧ last'.Fills file last.stop last'.stop := by
  obtain ⟨l, ls, rfl⟩ := h.exists_cons
  unfold Guard.bracketed Parser.bracketed
  refine .expectSymbol fun hkind => ?_
  have hnext := h.next hkind
  have hopen := (h.fills hkind).lt
  obtain ⟨m, ms, rfl⟩ := hnext.exists_cons
  -- Nothing stands between the brackets, or an expression does.
  refine .atKind (by simp) (fun hclose => ?_) fun _ => ?_
  · exact .advance hclose (.pure ⟨.nil, (hnext.fills hclose).widen (Nat.le_of_lt hopen) (Nat.le_refl _)⟩)
  · refine (ih.binary 1 (hnext.less (by omega))).bind fun inner bs last₁ hc hinner => ?_
    have hroom := hnext.after hc
    have hle := hnext.stop_le hc
    obtain ⟨x, xs, rfl⟩ := hroom.exists_cons
    refine .expectSymbol fun hx => .pure ?_
    have hclose := hroom.fills hx
    exact ⟨hinner.widen (Nat.le_of_lt hopen) (Nat.le_of_lt hclose.lt), hclose.widen (by omega) (Nat.le_refl _)⟩

end Steps

end ExprsAlike

/-- Every number of steps that is enough. -/
theorem exprsAlike (g : Guard) (file length n : Nat) : ExprsAlike g file length n := by
  induction n with
  -- Without steps there is no room.
  | zero =>
    constructor
    · exact fun _ h => h.absurd
    · exact fun _ _ _ h _ => h.absurd
    · exact fun h => h.absurd
    · exact fun h => h.absurd
    · exact fun h => h.absurd
    · exact fun _ _ h _ => h.absurd
    · exact fun h => h.absurd
    · exact fun _ _ h _ _ => h.absurd
    · exact fun _ _ h _ _ => h.absurd
    · exact fun h _ => h.absurd
    · exact fun h => h.absurd
  | succ n ih =>
    refine ⟨fun least h => ?_, fun _ _ _ h hleft => ih.binaryRest_succ h hleft, fun h => ih.negation_succ h,
      fun h => ih.unary_succ h, fun h => ih.power_succ h, fun _ _ h hbase => ih.members_succ h hbase,
      fun h => ih.primary_succ h, fun _ _ h hkind hcallee => ih.callRest_succ h hkind hcallee,
      fun _ _ h hlo hdone => ih.arguments_succ h hlo hdone, fun h hkind => ih.query_succ h hkind,
      fun h => ih.bracketed_succ h⟩
    -- The first operand, and the operators behind it.
    exact (ih.negation (h.less (by omega))).bind fun left _ _ hc hleft =>
      ih.binaryRest least left _ ((h.after hc).less (by omega)) hleft

end AisScript.Parser
