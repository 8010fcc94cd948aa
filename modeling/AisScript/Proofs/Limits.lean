import AisScript.Parser
import AisScript.Proofs.ParserShape
import AisScript.Proofs.Spans

/-!
# Parsing under two limits

The parser counts syntax errors and reports them up to a limit, but it never looks at the count or at
what was reported.  Two runs over the same lexemes under different limits go in step: they return the same
tree, and whenever one of them has reported something the other one has.  All that they return or report
is placed where the lexemes are.

* `ParseState.InStep`   states of two such runs
* `Pairs`               steps of the parser that keep runs in step
* `Parser.ExprsPair`    all expression parsers at one number of steps
* `Parser.StmtsPair`    all statement parsers at one number of steps
* `parse_pairs`         whole files
-/

namespace AisScript

/-! ## States -/

/-- A property of spans that goes from parts to the whole, and to the place behind a part. -/
structure Covers (P : Span → Prop) : Prop where
  cover : ∀ s t, P s → P t → P (s.cover t)
  behind : ∀ s, P s → P (.point s.file s.stop)

/-- The spans inside a stretch of a file. -/
theorem Covers.between (file lo hi : Nat) : Covers (Span.Between file lo hi) :=
  ⟨fun _ _ => Span.Between.cover, fun _ => Span.Between.behind⟩

/-- What was reported up to a state: errors in place, and one at least if any was counted. -/
structure ParseState.Told (P : Span → Prop) (s : ParseState) : Prop where
  reports : ∀ d ∈ s.reports, d.Erring P
  counted : 0 < s.errors → s.reports ≠ []

/-- States of two runs over the same lexemes: only the limits and what was reported may differ, and
something was reported in both or in none. -/
structure ParseState.InStep (P : Span → Prop) (s s' : ParseState) : Prop where
  ahead : s'.ahead = s.ahead
  seen : s'.seen = s.seen
  last : s'.last = s.last
  errors : s'.errors = s.errors
  lexemes : ∀ l ∈ s.ahead, l.Placed P
  place : P s.last
  told : s.Told P
  told' : s'.Told P
  alike : s.reports = [] ↔ s'.reports = []

namespace Parser

variable {P : Span → Prop} {α β : Type}

/-- A step that takes runs in step to runs in step, with the same result. -/
def Pairs (P : Span → Prop) (p : Parser α) (post : α → Prop) : Prop :=
  ∀ s s', s.InStep P s' → (p.run s').1 = (p.run s).1 ∧ (p.run s).2.InStep P (p.run s').2
    ∧ ∀ a, (p.run s).1 = some a → post a

namespace Pairs

variable {p : Parser α} {f : α → Parser β} {post : α → Prop} {post' : β → Prop}

/-- Two steps in a row. -/
theorem bind (hp : Pairs P p post) (hf : ∀ a, post a → Pairs P (f a) post') : Pairs P (p >>= f) post' := by
  intro s s' h
  -- The first step keeps both runs paired, and both have the same outcome.
  obtain ⟨hsame, hstep, hpost⟩ := hp s s' h
  rw [run_bind, run_bind]
  cases hr : p.run s with
  | mk r s₁ =>
    cases hr' : p.run s' with
    | mk r' s₁' =>
      rw [hr] at hsame hstep hpost
      rw [hr'] at hsame hstep
      cases hsame
      -- If the first step gives up, it does so in both runs.
      cases r with
      | none => exact ⟨rfl, hstep, nofun⟩
      | some a => exact hf a (hpost a rfl) s₁ s₁' hstep

/-- A step that does nothing. -/
theorem pure {a : α} (h : post a) : Pairs P (Pure.pure a) post :=
  fun _ _ hs => ⟨rfl, hs, fun _ ha => Option.some.inj ha ▸ h⟩

/-- Failing. -/
theorem failure : Pairs P (Alternative.failure : Parser α) post :=
  fun _ _ hs => ⟨rfl, hs, nofun⟩

/-- Going on from a value. -/
theorem pure_bind {a : α} (h : Pairs P (f a) post') : Pairs P (Pure.pure a >>= f) post' := by
  have hpure : Pairs P (Pure.pure a) (· = a) := pure rfl
  exact hpure.bind fun _ heq => heq ▸ h

/-- Nothing goes on from a failure. -/
theorem failure_bind : Pairs P (Alternative.failure >>= f) post' := by
  have hfailure : Pairs P (Alternative.failure : Parser α) fun _ => False := failure
  exact hfailure.bind fun _ h => h.elim

/-- A step whose result is changed. -/
theorem map {g : α → β} (hp : Pairs P p post) (hg : ∀ a, post a → post' (g a)) : Pairs P (g <$> p) post' := by
  rw [map_eq_pure_bind]
  exact hp.bind fun a ha => pure (hg a ha)

/-- An attempt of a step. -/
theorem attempt (hp : Pairs P p post) : Pairs P (Parser.attempt p) fun r => ∀ a, r = some a → post a := by
  intro s s' h
  obtain ⟨hsame, hstep, hpost⟩ := hp s s' h
  refine ⟨congrArg some hsame, hstep, fun r hr a ha => ?_⟩
  exact hpost a ((Option.some.inj hr).trans ha)

/-- Less is known. -/
theorem weaken {post' : α → Prop} (hp : Pairs P p post) (h : ∀ a, post a → post' a) : Pairs P p post' := by
  intro s s' hs
  obtain ⟨hsame, hstep, hpost⟩ := hp s s' hs
  exact ⟨hsame, hstep, fun a ha => h a (hpost a ha)⟩

end Pairs

/-! ## The steps all others are made of -/

/-- Looking at the token ahead: its reports are passed on in both runs. -/
private theorem pairs_peek (hP : Covers P) : Pairs P peek fun t => P t.span := by
  intro s s' h
  -- Both runs look at the same tokens, so it is the same case in both.
  obtain ⟨_, _, _, _, maxErrors, reports⟩ := s
  obtain ⟨ahead, seen, last, errors, maxErrors', reports'⟩ := s'
  obtain ⟨rfl, rfl, rfl, rfl, hlexemes, hplace, htold, htold', halike⟩ := h
  -- There is nothing ahead but the end of the text.
  cases ahead with
  | nil =>
    refine ⟨rfl, ⟨rfl, rfl, rfl, rfl, hlexemes, hplace, htold, htold', halike⟩, fun t ht => ?_⟩
    cases ht
    exact hP.behind _ hplace
  | cons l ls =>
    have hl : l.Placed P := hlexemes l List.mem_cons_self
    cases seen with
    -- A token that was seen is reported already.
    | true =>
      refine ⟨rfl, ⟨rfl, rfl, rfl, rfl, hlexemes, hplace, htold, htold', halike⟩, fun t ht => ?_⟩
      cases ht
      exact hl.token
    -- A new token: its reports are added to those of both runs.
    | false =>
      have hadd : ∀ {e m : Nat} {ds : List Diagnostic}, ParseState.Told P ⟨l :: ls, false, last, e, m, ds⟩ →
          ParseState.Told P ⟨l :: ls, true, last, e, m, l.reports.reverse ++ ds⟩ := by
        rintro e m ds ⟨hreports, hcounted⟩
        refine ⟨List.forall_mem_append.2 ⟨fun d hd => hl.reports d (List.mem_reverse.1 hd), hreports⟩, ?_⟩
        exact fun he => List.append_ne_nil_of_right_ne_nil _ (hcounted he)
      refine ⟨rfl, ⟨rfl, rfl, rfl, rfl, hlexemes, hplace, hadd htold, hadd htold', ?_⟩, fun t ht => ?_⟩
      · change l.reports.reverse ++ reports = [] ↔ l.reports.reverse ++ reports' = []
        rw [List.append_eq_nil_iff, List.append_eq_nil_iff]
        exact and_congr_right fun _ => halike
      · cases ht
        exact hl.token

/-- Counting a syntax error: both runs have reported something behind it. -/
private theorem pairs_report {code : Code} {span : Span} {message : Text} {notes : List Note} (hspan : P span)
    (hnotes : ∀ n ∈ notes, P n.span) : Pairs P (report code span message notes) fun _ => True := by
  -- Whether the limit is reached or not, there are reports behind it and all of them are errors.
  have hcount : ∀ s : ParseState, s.Told P → ∃ ds : List Diagnostic,
      ((report code span message notes).run s) = (some (), { s with errors := s.errors + 1, reports := ds })
        ∧ ds ≠ [] ∧ ∀ d ∈ ds, d.Erring P := by
    intro s hs
    by_cases hfull : s.maxErrors ≠ 0 ∧ s.maxErrors ≤ s.errors
    · -- The limit is reached only behind reports.
      refine ⟨s.reports, ?_, hs.counted (by omega), hs.reports⟩
      change (some (), if s.maxErrors ≠ 0 ∧ s.maxErrors ≤ s.errors then _ else _) = _
      rw [if_pos hfull]
    · refine ⟨{ code, span, message, notes } :: s.reports, ?_, List.cons_ne_nil _ _,
        List.forall_mem_cons.2 ⟨⟨rfl, hspan, hnotes⟩, hs.reports⟩⟩
      change (some (), if s.maxErrors ≠ 0 ∧ s.maxErrors ≤ s.errors then _ else _) = _
      rw [if_neg hfull]
  -- One of these for each run, and neither is left without a report.
  intro s s' h
  obtain ⟨ds, hrun, hne, hds⟩ := hcount s h.told
  obtain ⟨ds', hrun', hne', hds'⟩ := hcount s' h.told'
  rw [hrun, hrun']
  exact ⟨rfl, ⟨h.ahead, h.seen, h.last, congrArg (· + 1) h.errors, h.lexemes, h.place, ⟨hds, fun _ => hne⟩,
    ⟨hds', fun _ => hne'⟩, ⟨fun h => absurd h hne, fun h => absurd h hne'⟩⟩, fun _ _ => trivial⟩

/-- Counting a syntax error without notes. -/
private theorem pairs_blame {code : Code} {span : Span} {message : Text} (hspan : P span) :
    Pairs P (report code span message) fun _ => True := pairs_report hspan nofun

/-- The place of the last consumed token. -/
private theorem pairs_lastSpan : Pairs P lastSpan P := by
  intro s s' h
  refine ⟨congrArg some h.last, h, fun a ha => ?_⟩
  cases ha
  exact h.place

/-- The kind of the token ahead. -/
private theorem pairs_peekKind (hP : Covers P) : Pairs P peekKind fun _ => True :=
  (pairs_peek hP).bind fun _ _ => Pairs.pure trivial

/-- Whether the token ahead has a kind. -/
private theorem pairs_atKind (hP : Covers P) (k : Token.Kind) : Pairs P (atKind k) fun _ => True :=
  (pairs_peekKind hP).bind fun _ _ => Pairs.pure trivial

/-- Whether the token ahead is a keyword. -/
private theorem pairs_atKeyword (hP : Covers P) (k : Keyword) : Pairs P (atKeyword k) fun _ => True :=
  pairs_atKind hP (.keyword k)

/-- Whether the token ahead is a symbol. -/
private theorem pairs_atSymbol (hP : Covers P) (s : Symbol) : Pairs P (atSymbol s) fun _ => True :=
  pairs_atKind hP (.symbol s)

/-- Consuming the token ahead. -/
private theorem pairs_advance (hP : Covers P) : Pairs P advance fun t => P t.span := by
  refine (pairs_peek hP).bind fun t ht => ?_
  split
  · exact Pairs.pure ht
  · intro s s' h
    refine ⟨rfl, ⟨congrArg List.tail h.ahead, rfl, rfl, h.errors, ?_, ht, ⟨h.told.reports, h.told.counted⟩,
      ⟨h.told'.reports, h.told'.counted⟩, h.alike⟩, ?_⟩
    · exact fun l hl => h.lexemes l (List.mem_of_mem_tail hl)
    · intro a ha
      cases ha
      exact ht

/-- Where to report a problem with the token ahead. -/
private theorem pairs_problemSpan (hP : Covers P) : Pairs P problemSpan P := by
  refine (pairs_peek hP).bind fun t ht => pairs_lastSpan.bind fun last hlast => ?_
  split
  · exact Pairs.pure (hP.behind _ hlast)
  · exact Pairs.pure ht

/-- Reporting a problem with the token ahead. -/
private theorem pairs_complain (hP : Covers P) (code : Code) (message : Text) :
    Pairs P (complain code message) fun _ => True :=
  (pairs_problemSpan hP).bind fun _ hspan => pairs_blame hspan

/-- Rejecting the token ahead. -/
private theorem pairs_reject (hP : Covers P) {code : Code} {message : Text} {post : α → Prop} :
    Pairs P (reject code message : Parser α) post :=
  (pairs_complain hP code message).bind fun _ _ => Pairs.failure

/-- Expecting a kind of token. -/
private theorem pairs_expect (hP : Covers P) (k : Token.Kind) (code : Code) (message : Text) :
    Pairs P (expect k code message) fun t => P t.span := by
  refine (pairs_atKind hP k).bind fun b _ => ?_
  split
  · exact pairs_advance hP
  · exact pairs_reject hP

/-- Expecting a name. -/
private theorem pairs_expectName (hP : Covers P) (message : Text) :
    Pairs P (expectName message) fun t => P t.span :=
  pairs_expect hP _ _ _

/-- Expecting a symbol. -/
private theorem pairs_expectSymbol (hP : Covers P) (s : Symbol) (code : Code) (message : Text) :
    Pairs P (expectSymbol s code message) fun t => P t.span :=
  pairs_expect hP _ _ _

/-- Expecting the end of a construct. -/
private theorem pairs_expectEnd (hP : Covers P) (what : Text) {opened : Span} (hopened : P opened) :
    Pairs P (expectEnd what opened) fun _ => True := by
  refine (pairs_atKeyword hP .endKw).bind fun b _ => ?_
  split
  · exact (pairs_advance hP).bind fun _ _ => Pairs.pure trivial
  · exact (pairs_problemSpan hP).bind fun span hspan =>
      (pairs_report hspan (List.forall_mem_singleton.2 hopened)).bind fun _ _ => Pairs.failure

/-! ## Expressions -/

/-- A literal is placed where its token is. -/
private theorem placed_literal {v : Literal} {s : Span} (h : P s) : (Expr.literal v s).Placed P :=
  List.forall_mem_singleton.2 h

/-- A name is placed where its token is. -/
private theorem placed_name {n : Text} {s : Span} (h : P s) : (Expr.name n s).Placed P :=
  List.forall_mem_singleton.2 h

/-- An operation is placed where its operands are. -/
private theorem placed_infixOp (hP : Covers P) (op : BinaryOp) {l r : Expr} (hl : l.Placed P)
    (hr : r.Placed P) : (Expr.infixOp op l r).Placed P := by
  simp only [Expr.Placed, Expr.infixOp, Expr.nodes, List.forall_mem_cons, List.forall_mem_append]
  exact ⟨hP.cover _ _ hl.span hr.span, hl, hr⟩

/-- A prefixed operand is placed where the prefix and the operand are. -/
private theorem placed_prefixOp (hP : Covers P) (op : UnaryOp) {x : Expr} {s : Span} (hs : P s)
    (hx : x.Placed P) : (Expr.prefixOp op x s).Placed P := by
  simp only [Expr.Placed, Expr.prefixOp, Expr.nodes, List.forall_mem_cons]
  exact ⟨hP.cover _ _ hs hx.span, hx⟩

/-- A member is placed where its base and its name are. -/
private theorem placed_access (hP : Covers P) (a : Access) {b : Expr} (n : Text) {ns : Span}
    (hb : b.Placed P) (hns : P ns) : (Expr.access a b n ns).Placed P := by
  simp only [Expr.Placed, Expr.access, Expr.nodes, List.forall_mem_cons]
  exact ⟨⟨hP.cover _ _ hb.span hns, hns⟩, hb⟩

/-- A list of expressions is placed if each of them is. -/
private theorem placed_list {es : List Expr} (h : ∀ e ∈ es, e.Placed P) :
    ∀ x ∈ nodesOfList es, x.PlacedHere P := by
  induction es with
  | nil => exact nofun
  | cons e es ih =>
    obtain ⟨he, hes⟩ := List.forall_mem_cons.1 h
    exact List.forall_mem_append.2 ⟨he, ih hes⟩

/-- A call is placed where its name, its whole and its arguments are. -/
private theorem placed_apply (n : Text) {ns s : Span} {args : List Expr} (hns : P ns) (hs : P s)
    (h : ∀ e ∈ args, e.Placed P) : (Expr.apply n ns args s).Placed P := by
  simp only [Expr.Placed, Expr.apply, Expr.nodes, List.forall_mem_cons]
  exact ⟨⟨hs, hns⟩, placed_list h⟩

/-- All expression parsers keep runs in step at a number of steps. -/
structure ExprsPair (P : Span → Prop) (n : Nat) : Prop where
  binary : ∀ least, Pairs P (binary n least) (Expr.Placed P)
  binaryRest : ∀ least e, e.Placed P → Pairs P (binaryRest n least e) (Expr.Placed P)
  negation : Pairs P (negation n) (Expr.Placed P)
  unary : Pairs P (unary n) (Expr.Placed P)
  power : Pairs P (power n) (Expr.Placed P)
  members : ∀ e, e.Placed P → Pairs P (members n e) (Expr.Placed P)
  primary : Pairs P (primary n) (Expr.Placed P)
  callRest : ∀ t, P t.span → Pairs P (callRest n t) (Expr.Placed P)
  arguments : ∀ done, (∀ e ∈ done, e.Placed P) →
    Pairs P (arguments n done) (fun es => ∀ e ∈ es, e.Placed P)
  query : Pairs P (query n) (Expr.Placed P)
  bracketed : Pairs P (bracketed n) (PlacedOption P)

/-- Every number of steps keeps runs in step. -/
private theorem exprsPair (hP : Covers P) (n : Nat) : ExprsPair P n := by
  induction n with
  | zero =>
    -- Without steps, every parser gives up in both runs.
    constructor <;> intros <;> exact Pairs.failure
  | succ n ih =>
    refine ⟨fun least => ?_, fun least left hleft => ?_, ?_, ?_, ?_, fun base hbase => ?_, ?_,
      fun callee hcallee => ?_, fun done hdone => ?_, ?_, ?_⟩
    -- A binary expression: its first operand, and the operators behind it.
    · exact ih.negation.bind fun left hleft => ih.binaryRest least left hleft
    · unfold Parser.binaryRest
      -- The operators: one that binds too loosely ends them, and one that is repeated is complained of.
      refine (pairs_peekKind hP).bind fun k _ => ?_
      split
      · exact Pairs.pure hleft
      · split
        · exact Pairs.pure hleft
        · refine (pairs_advance hP).bind fun _ _ => (ih.binary _).bind fun right hright => ?_
          have hrest := fun op => ih.binaryRest least _ (placed_infixOp hP op hleft hright)
          dsimp only
          split
          · refine (pairs_peekKind hP).bind fun k _ => ?_
            split
            · exact (pairs_complain hP _ _).bind fun _ _ => Pairs.failure_bind
            · exact hrest _
          · exact hrest _
    · unfold Parser.negation
      -- A negation stands in front of a comparison.
      refine (pairs_atKeyword hP .notKw).bind fun b _ => ?_
      split
      · exact (pairs_advance hP).bind fun mark hmark => (ih.binary comparison).bind fun operand hx =>
          Pairs.pure (placed_prefixOp hP _ hmark hx)
      · exact ih.unary
    · unfold Parser.unary
      -- A sign may stand in front of another one.
      refine (pairs_peekKind hP).bind fun k _ => ?_
      split
      · exact (pairs_advance hP).bind fun mark hmark => ih.unary.bind fun operand hx =>
          Pairs.pure (placed_prefixOp hP _ hmark hx)
      · exact ih.power
    · unfold Parser.power
      -- Behind a power stands a signed operand.
      refine ih.primary.bind fun head hhead => (ih.members head hhead).bind fun base hbase =>
        (pairs_atSymbol hP .starStar).bind fun b _ => ?_
      split
      · exact (pairs_advance hP).bind fun _ _ => ih.unary.bind fun e he =>
          Pairs.pure (placed_infixOp hP _ hbase he)
      · exact Pairs.pure hbase
    · unfold Parser.members
      -- Members, one name at a time.
      refine (pairs_peekKind hP).bind fun k _ => ?_
      split
      · exact Pairs.pure hbase
      · exact (pairs_advance hP).bind fun mark _ => (pairs_expectName hP _).bind fun m hm =>
          ih.members _ (placed_access hP _ _ hbase hm)
    · unfold Parser.primary
      -- Primary expressions: numbers, texts, names and calls, parentheses, queries.
      refine (pairs_peek hP).bind fun t ht => ?_
      split
      · refine (pairs_advance hP).bind fun _ _ => ?_
        split
        · exact Pairs.pure (placed_literal ht)
        · exact (pairs_blame ht).bind fun _ _ => Pairs.failure
      · refine (pairs_advance hP).bind fun _ _ => ?_
        split
        · exact Pairs.pure (placed_literal ht)
        · exact (pairs_blame ht).bind fun _ _ => Pairs.failure
      · exact (pairs_advance hP).bind fun _ _ => Pairs.pure (placed_literal ht)
      · refine (pairs_advance hP).bind fun _ _ => (pairs_atSymbol hP .lParen).bind fun b _ => ?_
        split
        · exact ih.callRest t ht
        · exact Pairs.pure (placed_name ht)
      · exact (pairs_advance hP).bind fun _ _ => (ih.binary 1).bind fun e he =>
          (pairs_expectSymbol hP _ _ _).bind fun _ _ => Pairs.pure he
      · exact ih.query
      · exact (pairs_advance hP).bind fun _ _ => Pairs.failure
      · exact pairs_reject hP
    · unfold Parser.callRest
      -- The arguments of a call, and the span up to its closing parenthesis.
      exact (pairs_advance hP).bind fun _ _ => (ih.arguments [] (by simp)).bind fun args hargs =>
        (pairs_expectSymbol hP _ _ _).bind fun closing hclosing =>
          Pairs.pure (placed_apply _ hcallee (hP.cover _ _ hcallee hclosing) hargs)
    · unfold Parser.arguments
      -- Arguments are gathered in reverse.
      have hrev : ∀ es : List Expr, (∀ e ∈ es, e.Placed P) → ∀ e ∈ es.reverse, e.Placed P :=
        fun es hes e he => hes e (List.mem_reverse.1 he)
      refine (pairs_peekKind hP).bind fun k _ => ?_
      split
      · exact Pairs.pure (hrev done hdone)
      · refine (ih.binary 1).bind fun arg harg => (pairs_atSymbol hP .comma).bind fun b _ => ?_
        have hdone' : ∀ e ∈ arg :: done, e.Placed P := List.forall_mem_cons.2 ⟨harg, hdone⟩
        split
        · exact (pairs_advance hP).bind fun _ _ => ih.arguments _ hdone'
        · refine (pairs_atSymbol hP .rParen).bind fun b _ => ?_
          split
          · exact Pairs.pure (hrev _ hdone')
          · exact pairs_reject hP
    · unfold Parser.query
      -- A query with its three brackets, whose span ends at the last token.
      exact (pairs_advance hP).bind fun mark hmark => (pairs_expectName hP _).bind fun kind _ =>
        ih.bracketed.bind fun u hu => (pairs_expectName hP _).bind fun op _ => ih.bracketed.bind fun x hx =>
          (pairs_expect hP _ _ _).bind fun _ _ => ih.bracketed.bind fun c hc =>
            pairs_lastSpan.bind fun last hlast => Pairs.pure (by
              simp only [Expr.Placed, Expr.nodes, List.forall_mem_cons, List.forall_mem_append]
              exact ⟨hP.cover _ _ hmark hlast, ⟨hu, hx⟩, hc⟩)
    · unfold Parser.bracketed
      -- Brackets may be empty.
      refine (pairs_expectSymbol hP _ _ _).bind fun _ _ => (pairs_atSymbol hP .rBracket).bind fun b _ => ?_
      split
      · exact (pairs_advance hP).bind fun _ _ => Pairs.pure (List.forall_mem_nil _)
      · exact (ih.binary 1).bind fun e he => (pairs_expectSymbol hP _ _ _).bind fun _ _ => Pairs.pure he

/-! ## Statements without blocks -/

/-- Skipping tokens. -/
private theorem pairs_skip (hP : Covers P) (n : Nat) : Pairs P (resync.skip n) fun _ => True := by
  -- By induction on the tokens that may be skipped.
  induction n with
  | zero => exact Pairs.pure trivial
  | succ n ih =>
    unfold resync.skip
    -- Keywords that begin or end statements and the end of the text stop the skipping.
    refine (pairs_peek hP).bind fun t _ => ?_
    split
    · exact Pairs.pure trivial
    · exact Pairs.pure trivial
    · exact Pairs.pure trivial
    · exact Pairs.pure trivial
    · split
      · exact Pairs.pure trivial
      · exact (pairs_advance hP).bind fun _ _ => ih

/-- Skipping as many tokens as are ahead at most. -/
private theorem pairs_skipAhead (hP : Covers P) :
    Pairs P (do let s ← get; resync.skip s.ahead.length) fun _ => True := by
  intro s s' h
  have hrun : ∀ s : ParseState, (do let s ← get; resync.skip s.ahead.length : Parser Unit).run s
      = (resync.skip s.ahead.length).run s := fun _ => rfl
  rw [hrun, hrun, h.ahead]
  exact pairs_skip hP _ s s' h

/-- Skipping to a token that begins a statement or closes a block. -/
private theorem pairs_resync (hP : Covers P) (from_ : Span) : Pairs P (resync from_) fun _ => True := by
  unfold resync
  refine (pairs_peek hP).bind fun t _ => ?_
  dsimp only
  split
  · exact (pairs_advance hP).bind fun _ _ => pairs_skipAhead hP
  · exact pairs_skipAhead hP

/-- An assignment read from its name on. -/
private theorem pairs_assignRest (hP : Covers P) (n : Nat) {name : Token} (hname : P name.span) :
    Pairs P (assignRest n name) (Assign.Placed P) :=
  (pairs_advance hP).bind fun _ _ => ((exprsPair hP n).binary 1).bind fun _ hv =>
    Pairs.pure ⟨hP.cover _ _ hname hv.span, hname, hv⟩

/-- An assignment. -/
private theorem pairs_assignment (hP : Covers P) (n : Nat) : Pairs P (assignment n) (Assign.Placed P) := by
  refine (pairs_expectName hP _).bind fun name hname => (pairs_atSymbol hP .assign).bind fun b _ => ?_
  split
  · exact pairs_assignRest hP n hname
  · exact pairs_reject hP

/-- The step of a loop. -/
private theorem pairs_forStep (hP : Covers P) (n : Nat) : Pairs P (forStep n) (PlacedClause P) := by
  refine (pairs_atKind hP .ident).bind fun b _ => ?_
  split
  · refine (pairs_advance hP).bind fun name hname => (pairs_atSymbol hP .assign).bind fun b _ => ?_
    split
    · exact (pairs_assignRest hP n hname).bind fun a ha => Pairs.pure ha
    · exact (pairs_blame hname).bind fun _ _ => Pairs.failure
  · exact Pairs.pure trivial

/-- A statement that begins with a name. -/
private theorem pairs_namedStmt (hP : Covers P) (n : Nat) : Pairs P (namedStmt n) (Stmt.Placed P) := by
  refine (pairs_advance hP).bind fun name hname => (pairs_peekKind hP).bind fun k _ => ?_
  split
  · exact (pairs_assignRest hP n hname).bind fun a ha => Pairs.pure ha
  · exact ((exprsPair hP n).callRest name hname).bind fun e he => Pairs.pure ⟨he.span, he⟩
  · exact (pairs_advance hP).bind fun _ _ => (pairs_expectName hP _).bind fun m hm =>
      (pairs_expectSymbol hP _ _ _).bind fun _ _ => ((exprsPair hP n).binary 1).bind fun v hv =>
        Pairs.pure ⟨hP.cover _ _ hname hv.span, placed_access hP .dotted _ (placed_name hname) hm, hv⟩
  · exact (pairs_blame hname).bind fun _ _ => Pairs.failure

/-- The members of a bitfield. -/
private theorem pairs_bitfieldMembers (hP : Covers P) (n : Nat) (done : List BitfieldMember) :
    Pairs P (bitfieldMembers n done) fun _ => True := by
  induction n generalizing done with
  | zero => exact Pairs.failure
  | succ n ih =>
    unfold bitfieldMembers
    refine (pairs_atKind hP .ident).bind fun b _ => ?_
    -- One member: a name, a colon and a width, which may be blamed.
    split
    · refine (pairs_advance hP).bind fun m hm => (pairs_expectSymbol hP _ _ _).bind fun _ _ =>
        (pairs_expect hP _ _ _).bind fun width hwidth => ?_
      split
      · split
        · exact (pairs_blame hwidth).bind fun _ _ => ih done
        -- A name that is given twice is blamed where it stands.
        · split
          · exact (pairs_blame hm).bind fun _ _ => ih done
          · exact ih _
      · exact (pairs_blame hwidth).bind fun _ _ => ih done
    · exact Pairs.pure trivial

/-- The definition of a bitfield. -/
private theorem pairs_bitfieldDef (hP : Covers P) (n : Nat) : Pairs P (bitfieldDef n) (Stmt.Placed P) := by
  unfold bitfieldDef
  refine (pairs_advance hP).bind fun mark hmark => (pairs_expectName hP _).bind fun name _ =>
    (pairs_bitfieldMembers hP n []).bind fun members _ => ?_
  -- Behind the members, with or without a complaint about them.
  have hrest : Pairs P (do
      expectEnd "bitfield" mark.span
      let last ← lastSpan
      pure (.bitfieldDef (mark.span.cover last) { name := name.text, members, site := name.span }))
      (Stmt.Placed P) :=
    (pairs_expectEnd hP _ hmark).bind fun _ _ => pairs_lastSpan.bind fun last hlast =>
      Pairs.pure (hP.cover _ _ hmark hlast)
  dsimp only
  split
  · exact (pairs_complain hP _ _).bind fun _ _ => hrest
  · exact hrest

/-- The digits of the value of a member, with what its sign makes of them. -/
private theorem pairs_digits (hP : Covers P) (signed : Int64 → Int64) : Pairs P (do
    let t ← expect .int .expectNumber "expected integer value for enum member"
    match intValue? t.text with
    | some v => pure (signed v)
    | none =>
      report .expectNumber t.span "integer literal out of range"
      failure) fun _ => True := by
  refine (pairs_expect hP _ _ _).bind fun t ht => ?_
  split
  · exact Pairs.pure trivial
  · exact (pairs_blame ht).bind fun _ _ => Pairs.failure

/-- The value of a member of an enumeration. -/
private theorem pairs_enumValue (hP : Covers P) : Pairs P enumValue fun _ => True := by
  unfold enumValue
  refine (pairs_advance hP).bind fun _ _ => (pairs_atSymbol hP .minus).bind fun negative _ => ?_
  dsimp only
  split
  · exact (pairs_advance hP).bind fun _ _ => pairs_digits hP fun v => -v
  · exact pairs_digits hP id

/-- The members of an enumeration. -/
private theorem pairs_enumMembers (hP : Covers P) (n : Nat) (done : List (EnumSpec × Span))
    (hdone : ∀ m ∈ done, P m.2) : Pairs P (enumMembers n done) fun ms => ∀ m ∈ ms, P m.2 := by
  induction n generalizing done with
  | zero => exact Pairs.failure
  | succ n ih =>
    unfold enumMembers
    refine (pairs_atKind hP .ident).bind fun b _ => ?_
    split
    · refine (pairs_advance hP).bind fun m hm => (pairs_atSymbol hP .assign).bind fun b _ => ?_
      split
      · exact (pairs_enumValue hP).bind fun v _ => ih _ (List.forall_mem_cons.2 ⟨hm, hdone⟩)
      · exact ih _ (List.forall_mem_cons.2 ⟨hm, hdone⟩)
    · exact Pairs.pure fun m hm => hdone m (List.mem_reverse.1 hm)

/-- The enumeration that its members make; a member out of order is blamed where it stands. -/
private theorem pairs_enumBuilt (hP : Covers P) {mark name : Token}
    {members : List (EnumSpec × Span)} {last : Span}
    (hmark : P mark.span) (hname : P name.span) (hmembers : ∀ m ∈ members, P m.2) (hlast : P last) : Pairs P
    (match Enumeration.build name.text name.span (members.map (·.1)) with
    | (e, none) => pure (.enumDef (mark.span.cover last) e)
    | (e, some fault) => do
      let span := match members[e.members.length]? with
        | some (_, s) => s
        | none => name.span
      report .enumOrder span fault.message
      failure) (Stmt.Placed P) := by
  -- The enumeration is built, or its first fault is reported.
  split
  · exact Pairs.pure (hP.cover _ _ hmark hlast)
  · refine (pairs_blame ?_).bind fun _ _ => Pairs.failure
    -- The faulty member has a span, or the name of the enumeration stands for it.
    split
    · rename_i hi
      exact hmembers _ (List.mem_of_getElem? hi)
    · exact hname

/-- The definition of an enumeration. -/
private theorem pairs_enumDef (hP : Covers P) (n : Nat) : Pairs P (enumDef n) (Stmt.Placed P) := by
  unfold enumDef
  refine (pairs_advance hP).bind fun mark hmark => (pairs_expectName hP _).bind fun name hname =>
    (pairs_enumMembers hP n [] (List.forall_mem_nil _)).bind fun members hmembers => ?_
  dsimp only
  split
  · exact (pairs_complain hP _ _).bind fun _ _ => (pairs_expectEnd hP _ hmark).bind fun _ _ =>
      pairs_lastSpan.bind fun last hlast => pairs_enumBuilt hP hmark hname hmembers hlast
  · exact (pairs_expectEnd hP _ hmark).bind fun _ _ =>
      pairs_lastSpan.bind fun last hlast => pairs_enumBuilt hP hmark hname hmembers hlast

/-- A require. -/
private theorem pairs_requireStmt (hP : Covers P) : Pairs P requireStmt (Stmt.Placed P) :=
  (pairs_advance hP).bind fun _ hmark => (pairs_expect hP _ _ _).bind fun _ hpath =>
    Pairs.pure (hP.cover _ _ hmark hpath)

/-- The parameters of a function. -/
private theorem pairs_params (hP : Covers P) (n : Nat) (done : List Param) :
    Pairs P (params n done) fun _ => True := by
  induction n generalizing done with
  | zero => exact Pairs.failure
  | succ n ih =>
    unfold params
    refine (pairs_atSymbol hP .rParen).bind fun b _ => ?_
    split
    · exact Pairs.pure trivial
    · refine (pairs_expectName hP _).bind fun p _ => (pairs_atSymbol hP .comma).bind fun b _ => ?_
      split
      · exact (pairs_advance hP).bind fun _ _ => ih _
      · exact Pairs.pure trivial

/-! ## Statements with blocks -/

/-- All statement parsers keep runs in step at a number of steps. -/
structure StmtsPair (P : Span → Prop) (n : Nat) : Prop where
  stmts : ∀ ofFunction ends done, (∀ s ∈ done, s.Placed P) →
    Pairs P (stmts n ofFunction ends done) (PlacedStmts P)
  block : ∀ ofFunction ends, Pairs P (block n ofFunction ends) (Block.Placed P)
  returnStmt : ∀ ofFunction, Pairs P (returnStmt n ofFunction) (Stmt.Placed P)
  stmt : Pairs P (stmt n) (Stmt.Placed P)
  condRest : ∀ mark, P mark.span → Pairs P (condRest n mark) (Stmt.Placed P)
  elseRest : ∀ mark, P mark.span → Pairs P (elseRest n mark) (PlacedElse P)
  loop : Pairs P (loop n) (Stmt.Placed P)
  forLoop : Pairs P (forLoop n) (Stmt.Placed P)
  funcDef : Pairs P (funcDef n) (Stmt.Placed P)

/-- Every number of steps keeps runs in step. -/
private theorem stmtsPair (hP : Covers P) (n : Nat) : StmtsPair P n := by
  induction n with
  | zero =>
    -- Without steps, every parser gives up in both runs.
    constructor <;> intros <;> exact Pairs.failure
  | succ n ih =>
    -- Expressions inside statements have one step less, and so have all parts below.
    have hexpr := (exprsPair hP n).binary 1
    -- A loop header behind its first clause.
    have hfor : ∀ mark : Token, P mark.span → ∀ init, PlacedClause P init →
        Pairs P (forRest n mark init) (Stmt.Placed P) := by
      intro mark hmark init hinit
      have hbody : ∀ test, PlacedOption P test → Pairs P (forBody n mark init test) (Stmt.Placed P) :=
        fun test htest => (pairs_expectSymbol hP _ _ _).bind fun _ _ => (pairs_forStep hP n).bind fun st hst =>
          (ih.block false _).bind fun b hb => (pairs_expectEnd hP _ hmark).bind fun _ _ =>
            pairs_lastSpan.bind fun last hlast =>
              Pairs.pure ⟨hP.cover _ _ hmark hlast, hinit, htest, hst, hb⟩
      refine (pairs_expectSymbol hP _ _ _).bind fun _ _ => (pairs_atSymbol hP .semicolon).bind fun b _ => ?_
      dsimp only
      split
      · exact Pairs.pure_bind (hbody none nofun)
      · have htest : Pairs P (some <$> Parser.expr n) (PlacedOption P) := hexpr.map fun _ h => h
        exact htest.bind hbody
    refine ⟨fun ofFunction ends done hdone => ?_, fun ofFunction ends => ?_, fun ofFunction => ?_, ?_,
      fun mark hmark => ?_, fun mark hmark => ?_, ?_, ?_, ?_⟩
    -- The list of statements: a return ends it, and a statement that fails is skipped.
    · unfold Parser.stmts
      refine (pairs_peek hP).bind fun t _ => ?_
      split
      · exact Pairs.pure (placedStmts_iff.2 fun s hs => hdone s (List.mem_reverse.1 hs))
      · split
        · refine (ih.returnStmt ofFunction).attempt.bind fun r hr => ?_
          split
          · exact ih.stmts ofFunction ends _ (List.forall_mem_cons.2 ⟨hr _ rfl, hdone⟩)
          · exact ih.stmts ofFunction ends _ hdone
        · refine ih.stmt.attempt.bind fun r hr => ?_
          split
          · exact ih.stmts ofFunction ends _ (List.forall_mem_cons.2 ⟨hr _ rfl, hdone⟩)
          · exact (pairs_resync hP _).bind fun _ _ => ih.stmts ofFunction ends _ hdone
    -- A block spans from the first token to the last one that was taken.
    · exact (pairs_peek hP).bind fun first hfirst => (ih.stmts ofFunction ends [] nofun).bind fun body hbody =>
        pairs_lastSpan.bind fun last hlast => Pairs.pure ⟨nofun, hbody, hP.cover _ _ hfirst hlast⟩
    · unfold Parser.returnStmt
      -- A return has to stand in front of an end.
      refine (pairs_advance hP).bind fun mark hmark => hexpr.attempt.bind fun r hr => ?_
      split
      · exact (pairs_resync hP _).bind fun _ _ => Pairs.failure
      · rename_i v
        have hv := hr v rfl
        -- A value that was read is blamed if something else follows.
        refine (pairs_atKeyword hP .endKw).bind fun closed _ => ?_
        split
        · exact Pairs.pure ⟨hP.cover _ _ hmark hv.span, hv⟩
        · exact (pairs_blame hmark).bind fun _ _ => Pairs.failure
    · unfold Parser.stmt
      -- Each kind of statement is chosen by the token ahead.
      refine (pairs_peek hP).bind fun t ht => ?_
      split
      · exact pairs_namedStmt hP n
      · exact (pairs_advance hP).bind fun mark hmark => ih.condRest mark hmark
      · exact ih.loop
      · exact ih.forLoop
      · exact ih.funcDef
      · exact pairs_bitfieldDef hP n
      · exact pairs_enumDef hP n
      · exact pairs_requireStmt hP
      · exact (pairs_advance hP).bind fun _ _ => Pairs.pure ht
      · exact (pairs_advance hP).bind fun _ _ => Pairs.pure ht
      · exact Pairs.failure
      · exact (pairs_blame ht).bind fun _ _ => Pairs.failure
    · unfold Parser.condRest
      -- A condition with its branches.
      exact hexpr.bind fun c hc => (ih.block false _).bind fun t ht => (ih.elseRest mark hmark).bind fun f hf =>
        pairs_lastSpan.bind fun last hlast => Pairs.pure ⟨hP.cover _ _ hmark hlast, hc, ht, hf⟩
    · unfold Parser.elseRest
      -- Another condition, a last branch or the end.
      refine (pairs_atKeyword hP .elifKw).bind fun b _ => ?_
      split
      · exact (pairs_advance hP).bind fun inner hinner => (ih.condRest inner hinner).bind fun s hs =>
          Pairs.pure ⟨nofun, ⟨hs, trivial⟩, hs.span⟩
      · refine (pairs_atKeyword hP .elseKw).bind fun b _ => ?_
        split
        · exact (pairs_advance hP).bind fun _ _ => (ih.block false _).bind fun b hb =>
            (pairs_expectEnd hP _ hmark).bind fun _ _ => Pairs.pure hb
        · exact (pairs_expectEnd hP _ hmark).bind fun _ _ => Pairs.pure trivial
    · unfold Parser.loop
      exact (pairs_advance hP).bind fun mark hmark => hexpr.bind fun c hc => (ih.block false _).bind fun b hb =>
        (pairs_expectEnd hP _ hmark).bind fun _ _ => pairs_lastSpan.bind fun last hlast =>
          Pairs.pure ⟨hP.cover _ _ hmark hlast, hc, hb⟩
    · unfold Parser.forLoop
      -- The first clause of a loop header may be absent.
      refine (pairs_advance hP).bind fun mark hmark => (pairs_atSymbol hP .semicolon).bind fun b _ => ?_
      dsimp only
      split
      · exact Pairs.pure_bind (hfor mark hmark none trivial)
      · have hinit : Pairs P (some <$> Parser.assignment n) (PlacedClause P) :=
          (pairs_assignment hP n).map fun _ ha => ha
        exact hinit.bind (hfor mark hmark)
    · unfold Parser.funcDef
      -- A definition: name, parameters and body.
      exact (pairs_advance hP).bind fun mark hmark => (pairs_expectName hP _).bind fun name hname =>
        (pairs_expectSymbol hP _ _ _).bind fun _ _ => (pairs_params hP n []).bind fun ps _ =>
          (pairs_expectSymbol hP _ _ _).bind fun _ _ => (ih.block true _).bind fun b hb =>
            (pairs_expectEnd hP _ hmark).bind fun _ _ => pairs_lastSpan.bind fun last hlast =>
              Pairs.pure ⟨hP.cover _ _ hmark hlast, hname, hb⟩

/-- A block at top level. -/
private theorem pairs_program (hP : Covers P) (n : Nat) : Pairs P (Parser.program n) (Block.Placed P) :=
  (pairs_peek hP).bind fun first hfirst => ((stmtsPair hP n).block false []).bind fun body hbody =>
    (pairs_peek hP).bind fun last hlast => Pairs.pure (by
      obtain ⟨os, ss, sp⟩ := body
      exact ⟨hbody.1, hbody.2.1, hP.cover _ _ hfirst hlast⟩)

end Parser

/-! ## Files -/

/-- Two ways to report on a file: errors in place, in both or in none. -/
structure Told (P : Span → Prop) (ds ds' : List Diagnostic) : Prop where
  left : ∀ d ∈ ds, d.Erring P
  right : ∀ d ∈ ds', d.Erring P
  alike : ds = [] ↔ ds' = []

/-- A file is parsed into the same tree under any two limits, and there are reports under both or under
none.  The tree and the reports are placed in the file. -/
theorem parse_pairs (file max max' : Nat) (contents : Text) :
    (parse file max' contents).program = (parse file max contents).program
      ∧ (parse file max contents).program.Placed (Span.Between file 0 contents.length)
      ∧ Told (Span.Between file 0 contents.length) (parse file max contents).reports
          (parse file max' contents).reports := by
  -- The parser starts at the beginning of the file, with nothing reported.
  have hstart : Span.Between file 0 contents.length { file } :=
    ⟨rfl, Nat.le_refl _, Nat.le_refl _, Nat.zero_le _⟩
  -- Both runs start with the same tokens, and differ in their limits only.
  have hstep : ParseState.InStep (Span.Between file 0 contents.length)
      { ahead := lexemes file contents, last := { file }, maxErrors := max }
      { ahead := lexemes file contents, last := { file }, maxErrors := max' } :=
    ⟨rfl, rfl, rfl, rfl, lexemes_between file contents, hstart,
      ⟨by simp, fun h => absurd h (Nat.lt_irrefl 0)⟩, ⟨by simp, fun h => absurd h (Nat.lt_irrefl 0)⟩, Iff.rfl⟩
  obtain ⟨hsame, hlast, hplaced⟩ := Parser.pairs_program (Covers.between file 0 contents.length)
    (Parser.stepsFor (lexemes file contents).length) _ _ hstep
  simp only [parse, parseLexemes]
  -- The two runs are named, so that only what the pairing says of them is used.
  generalize (Parser.program (Parser.stepsFor (lexemes file contents).length)).run
    { ahead := lexemes file contents, last := { file }, maxErrors := max } = x at hsame hlast hplaced ⊢
  generalize (Parser.program (Parser.stepsFor (lexemes file contents).length)).run
    { ahead := lexemes file contents, last := { file }, maxErrors := max' } = x' at hsame hlast ⊢
  obtain ⟨r, s⟩ := x
  obtain ⟨r', s'⟩ := x'
  cases hsame
  -- Reports are gathered in reverse.
  have htold : Told (Span.Between file 0 contents.length) s.reports.reverse s'.reports.reverse := by
    refine ⟨fun d hd => hlast.told.reports d (List.mem_reverse.1 hd),
      fun d hd => hlast.told'.reports d (List.mem_reverse.1 hd), ?_⟩
    rw [List.reverse_eq_nil_iff, List.reverse_eq_nil_iff]
    exact hlast.alike
  -- A run that gives up leaves an empty program.
  cases r with
  | none => exact ⟨rfl, ⟨by simp, trivial, hstart⟩, htold⟩
  | some program => exact ⟨rfl, hplaced program rfl, htold⟩

end AisScript
