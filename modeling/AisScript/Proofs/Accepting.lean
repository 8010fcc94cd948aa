import AisScript.Proofs.Placeless
import AisScript.Proofs.ReadingExpr

/-!
# Accepting expressions

Words that the grammar derives are read without a report by the parser, into the tree they are derived
from.  No step fails, and exactly the derived words are consumed; for that the words behind must not go
on with the expression.

The operators of a chain are read in one loop, from left to right, while the grammar groups them.  So
what is shown of operands joined by operators has the rest of that loop as a premise.

* `ParseState.Quiet`           runs of the parser in which it reports nothing
* `Takes`                      a step that succeeds and consumes given words
* `JoinedTaken`, `SignedTaken` what is shown of the words of an expression
* `Expression.taken`           expressions are accepted
* `Expression.read`            and are read into their trees
-/

namespace AisScript

/-- All that is reported when the words ahead are read: what was reported up to here, and what the lexer has
to say about the words ahead. -/
def ParseState.told (s : ParseState) : List Diagnostic :=
  s.reports.reverse ++ (if s.seen then s.ahead.tail else s.ahead).flatMap Lexeme.reports

/-- A run of the parser from one state to another in which it reports nothing itself. -/
structure ParseState.Quiet (s s' : ParseState) : Prop where
  ahead : s'.ahead <:+ s.ahead
  errors : s'.errors = s.errors
  told : s'.told = s.told

/-- No run at all. -/
theorem ParseState.Quiet.refl (s : ParseState) : s.Quiet s := ⟨List.suffix_refl _, rfl, rfl⟩

/-- One run behind another. -/
theorem ParseState.Quiet.trans {s s' s'' : ParseState} (h : s.Quiet s') (h' : s'.Quiet s'') : s.Quiet s'' :=
  ⟨h'.ahead.trans h.ahead, h'.errors.trans h.errors, h'.told.trans h.told⟩

namespace Parser

open Grammar

variable {α β : Type}

/-! ## Steps that succeed -/

/-- Where the words `ws` are ahead, a step succeeds without a report of the parser, with a result that
satisfies `post` and the words `rest` left. -/
def Takes (ws : List Word) (p : Parser α) (post : α → Prop) (rest : List Word) : Prop :=
  ∀ s, s.words = ws → ∃ a s', p.run s = (some a, s') ∧ s.Quiet s' ∧ s'.words = rest ∧ post a

/-- A step that succeeds, whatever its result. -/
def Accepts (ws : List Word) (p : Parser α) (rest : List Word) : Prop := Takes ws p (fun _ => True) rest

namespace Takes

variable {ws rest vs : List Word} {p : Parser α} {f : α → Parser β} {post post' : α → Prop}

/-- Two steps in a row. -/
theorem bind {post' : β → Prop} (hp : Takes ws p post vs) (hf : ∀ a, post a → Takes vs (f a) post' rest) :
    Takes ws (p >>= f) post' rest := by
  intro s hs
  obtain ⟨a, s₁, hrun, hquiet, hs₁, ha⟩ := hp s hs
  obtain ⟨b, s₂, hrun', hquiet', hs₂, hb⟩ := hf a ha s₁ hs₁
  refine ⟨b, s₂, ?_, hquiet.trans hquiet', hs₂, hb⟩
  rw [run_bind, hrun]
  exact hrun'

/-- A step that does nothing. -/
theorem pure {a : α} (h : post a) : Takes ws (Pure.pure a) post ws := fun s hs => ⟨a, s, rfl, .refl s, hs, h⟩

/-- Less is known of the result. -/
theorem weaken (h : Takes ws p post rest) (hpost : ∀ a, post a → post' a) : Takes ws p post' rest := by
  intro s hs
  obtain ⟨a, s', hrun, hquiet, hs', ha⟩ := h s hs
  exact ⟨a, s', hrun, hquiet, hs', hpost a ha⟩

/-- A result that is changed. -/
theorem map {g : α → β} {post' : β → Prop} (h : Takes ws p post rest) (hg : ∀ a, post a → post' (g a)) :
    Takes ws (g <$> p) post' rest := by
  rw [map_eq_pure_bind]
  exact h.bind fun a ha => Takes.pure (hg a ha)

/-- An attempt succeeds. -/
theorem attempt (h : Takes ws p post rest) :
    Takes ws (Parser.attempt p) (fun r => ∃ a, r = some a ∧ post a) rest := by
  intro s hs
  obtain ⟨a, s', hrun, hquiet, hs', ha⟩ := h s hs
  refine ⟨some a, s', ?_, hquiet, hs', a, rfl, ha⟩
  change (some (p.run s).1, (p.run s).2) = _
  rw [hrun]

/-- Looking at a lexeme passes on what the lexer had to say about it. -/
private theorem run_peek {s : ParseState} {l : Lexeme} {ls : List Lexeme} (h : s.ahead = l :: ls) :
    ∃ s', Parser.peek.run s = (some l.token, s') ∧ s.Quiet s' ∧ s'.ahead = l :: ls ∧ s'.seen = true := by
  obtain ⟨ahead, seen, last, errors, maxErrors, reports⟩ := s
  cases h
  cases seen with
  | true => exact ⟨_, rfl, .refl _, rfl, rfl⟩
  | false =>
    refine ⟨⟨l :: ls, true, last, errors, maxErrors, l.reports.reverse ++ reports⟩, rfl,
      ⟨List.suffix_refl _, rfl, ?_⟩, rfl, rfl⟩
    simp only [ParseState.told, List.reverse_append, List.reverse_reverse, List.append_assoc, if_true,
      Bool.false_eq_true, if_false, List.tail_cons, List.flatMap_cons]

/-- The word ahead is looked at. -/
theorem peek {w : Word} : Takes (w :: ws) Parser.peek (fun t => t.word = w) (w :: ws) := by
  intro s hs
  obtain ⟨l, ls, hahead, rfl, rfl⟩ := List.map_eq_cons_iff.1 hs
  obtain ⟨s', hrun, hquiet, hahead', _⟩ := run_peek hahead
  exact ⟨l.token, s', hrun, hquiet, by rw [ParseState.words, hahead', List.map_cons], rfl⟩

/-- Whatever is ahead, its kind is known. -/
theorem peekHead : Takes ws Parser.peek (fun t => t.kind = headKind ws) ws := by
  cases ws with
  | nil =>
    -- With nothing ahead, an end mark is made up.
    intro s hs
    have hahead : s.ahead = [] := List.map_eq_nil_iff.1 hs
    obtain ⟨ahead, seen, last, errors, maxErrors, reports⟩ := s
    cases hahead
    exact ⟨endToken last, _, rfl, .refl _, rfl, rfl⟩
  | cons w ws =>
    refine peek.weaken fun t ht => ?_
    rw [← t.kind_word, ht]
    rfl

/-- The kind of the word ahead is looked at. -/
theorem peekKind : Takes ws Parser.peekKind (fun k => k = headKind ws) ws :=
  peekHead.bind fun _ ht => Takes.pure ht

/-- Whether the word ahead has a kind. -/
theorem atKind (k : Token.Kind) : Takes ws (Parser.atKind k) (fun b => b = true ↔ headKind ws = k) ws :=
  peekKind.bind fun _ hk => Takes.pure (by rw [hk]; exact beq_iff_eq)

/-- Whether a keyword is ahead. -/
theorem atKeyword {k : Keyword} :
    Takes ws (Parser.atKeyword k) (fun b => b = true ↔ headKind ws = .keyword k) ws := atKind _

/-- Whether a symbol is ahead. -/
theorem atSymbol {s : Symbol} :
    Takes ws (Parser.atSymbol s) (fun b => b = true ↔ headKind ws = .symbol s) ws := atKind _

/-- The word ahead is consumed. -/
theorem advance {w : Word} (hw : w ≠ .eof) : Takes (w :: ws) Parser.advance (fun t => t.word = w) ws := by
  intro s hs
  -- The words ahead come from lexemes, of which the first is the one consumed.
  obtain ⟨l, ls, hahead, rfl, rfl⟩ := List.map_eq_cons_iff.1 hs
  obtain ⟨s', hrun, hquiet, hahead', hseen⟩ := run_peek hahead
  have hne : l.token.kind ≠ .eof := by
    intro heof
    refine hw ?_
    rw [Token.word, heof]
  -- Behind it the lexemes ahead are the tail, and none of them has been seen.
  refine ⟨l.token, { s' with ahead := s'.ahead.tail, seen := false, last := l.token.span }, ?_,
    hquiet.trans ⟨List.tail_suffix _, rfl, ?_⟩, ?_, rfl⟩
  · unfold Parser.advance
    rw [run_bind, hrun]
    dsimp only
    rw [if_neg hne]
    rfl
  · -- What the lexer had to say about this lexeme is already passed on.
    simp only [ParseState.told, hseen, if_true, Bool.false_eq_true, if_false]
  · rw [ParseState.words, hahead', List.tail_cons]

/-- A name is consumed that is known to be ahead. -/
theorem advanceName {n : Text} : Takes (.name n :: ws) Parser.advance (fun t => t.word = .name n) ws :=
  advance nofun

/-- A keyword is consumed that is known to be ahead. -/
theorem advanceKeyword {k : Keyword} :
    Takes (.keyword k :: ws) Parser.advance (fun t => t.word = .keyword k) ws :=
  advance nofun

/-- A symbol is consumed that is known to be ahead. -/
theorem advanceSymbol {s : Symbol} :
    Takes (.symbol s :: ws) Parser.advance (fun t => t.word = .symbol s) ws :=
  advance nofun

/-- A word of a kind is consumed. -/
theorem expect {w : Word} {code : Code} {message : Text} (hw : w ≠ .eof) :
    Takes (w :: ws) (Parser.expect w.kind code message) (fun t => t.word = w) ws := by
  refine (atKind _).bind fun b hb => ?_
  rw [if_pos (hb.2 rfl)]
  exact advance hw

/-- A name is consumed. -/
theorem expectName {n message : Text} :
    Takes (.name n :: ws) (Parser.expectName message) (fun t => t.word = .name n) ws :=
  expect (w := .name n) nofun

/-- A symbol is consumed. -/
theorem expectSymbol {s : Symbol} {code : Code} {message : Text} :
    Takes (.symbol s :: ws) (Parser.expectSymbol s code message) (fun _ => True) ws :=
  (expect (w := .symbol s) nofun).weaken fun _ _ => trivial

/-- The `end` of a construct is consumed. -/
theorem expectEnd {what : Text} {opened : Span} :
    Takes (.keyword .endKw :: ws) (Parser.expectEnd what opened) (fun _ => True) ws := by
  refine atKeyword.bind fun b hb => ?_
  rw [if_pos (hb.2 rfl)]
  refine advanceKeyword.bind fun _ _ => ?_
  exact Takes.pure trivial

/-- The place of the last token says nothing. -/
theorem lastSpan : Takes ws Parser.lastSpan (fun _ => True) ws :=
  fun s hs => ⟨s.last, s, rfl, .refl s, hs, trivial⟩

end Takes

/-- A token has the kind of its word. -/
theorem kind_of_word {t : Token} {w : Word} (h : t.word = w) : t.kind = w.kind := by rw [← h, t.kind_word]

/-- A token that is a name has the name as its text. -/
private theorem text_of_name {t : Token} {m : Text} (h : t.word = .name m) : t.text = m := by
  rw [Token.word_ident (kind_of_word h)] at h
  exact Word.name.inj h

end Parser

namespace Grammar

open AisScript.Parser

/-! ## Words that begin an expression -/

/-- The kinds of words that begin an operand without prefixes. -/
def opensPrimary : Token.Kind → Bool
  | .int | .float | .string | .ident | .symbol .lParen | .keyword .queryKw => true
  | _ => false

/-- The kinds of words that begin an expression. -/
def opensExpr (k : Token.Kind) : Bool :=
  opensPrimary k || k == .symbol .minus || k == .symbol .tilde || k == .keyword .notKw

/-- A primary expression begins like one. -/
theorem Primary.opens {e : Expr} {ws : List Word} (h : Primary e ws) (rest : List Word) :
    opensPrimary (headKind (ws ++ rest)) = true := by
  cases h <;> rfl

/-- So does one with member accesses. -/
theorem Accessed.opens {e : Expr} {ws : List Word} : Accessed e ws →
    ∀ rest, opensPrimary (headKind (ws ++ rest)) = true
  | .primary he => he.opens
  | .member hb _ => fun rest => by
    rw [List.append_assoc]
    exact hb.opens _

/-- An operand begins like an expression, but not with `not`. -/
theorem Signed.opens {e : Expr} {ws : List Word} (h : Signed e ws) (rest : List Word) :
    opensExpr (headKind (ws ++ rest)) = true ∧ headKind (ws ++ rest) ≠ .keyword .notKw := by
  -- What begins a primary expression begins an expression, and is not `not`.
  have hprimary : ∀ {k}, opensPrimary k = true → opensExpr k = true ∧ k ≠ .keyword .notKw := by
    intro k hk
    refine ⟨by rw [opensExpr, hk]; rfl, ?_⟩
    rintro rfl
    exact nomatch hk
  cases h with
  | accessed he => exact hprimary (he.opens rest)
  | power hb hx =>
    rw [List.append_assoc]
    exact hprimary (hb.opens _)
  | sign hop _ =>
    -- Signs are the only prefixes that are left.
    unfold prefixOf? at hop
    split at hop
    · rename_i h
      cases h
      exact ⟨rfl, nofun⟩
    · rename_i h
      cases h
      exact ⟨rfl, nofun⟩
    · exact nomatch hop

/-- Joined operands begin like an expression. -/
theorem Joined.opens {least : Nat} {loose : Bool} {e : Expr} {ws : List Word} :
    Joined least loose e ws → ∀ rest, opensExpr (headKind (ws ++ rest)) = true
  | .operand he => fun rest => (he.opens rest).1
  | .not _ => fun _ => rfl
  | .operator _ _ hl _ _ => fun rest => by
    rw [List.append_assoc]
    exact hl.opens _

/-- An expression is written with some word. -/
theorem Expression.ne_nil {e : Expr} {ws : List Word} (h : Expression e ws) : ws ≠ [] := by
  rintro rfl
  obtain ⟨_, he⟩ := h
  have hopens := he.opens []
  exact nomatch hopens

end Grammar

namespace Parser

open Grammar

/-! ## What is shown of the words of an expression -/

/-- The words behind do not go on with an operand. -/
structure Closed (rest : List Word) : Prop where
  access : accessOf? (headKind rest) = none
  paren : headKind rest ≠ .symbol .lParen
  power : headKind rest ≠ .symbol .starStar

/-- The words behind do not go on with an expression. -/
structure Settled (rest : List Word) : Prop extends Closed rest where
  operator : infixOf? (headKind rest) = none

/-- A symbol that closes or separates does not go on with an expression. -/
theorem Settled.of_closer {s : Symbol} (hs : s ∈ [Symbol.rParen, .rBracket, .comma, .semicolon])
    (rest : List Word) : Settled (.symbol s :: rest) := by
  simp only [List.mem_cons, List.not_mem_nil, or_false] at hs
  rcases hs with rfl | rfl | rfl | rfl
  all_goals exact ⟨⟨rfl, nofun, nofun⟩, rfl⟩

/-- An operator does not go on with its left operand. -/
private theorem Closed.of_operator {rest : List Word} {r : BinaryOp × Nat}
    (h : infixOf? (headKind rest) = some r) : Closed rest := by
  -- An operator is none of the symbols that go on with an operand.
  refine ⟨?_, ?_, ?_⟩
  · unfold accessOf?
    split
    all_goals first
      | rfl
      | rename_i heq
        rw [heq] at h
        exact nomatch h
  all_goals
    intro heq
    rw [heq] at h
    exact nomatch h

/-- The words of a primary expression are read as one that is made of it. -/
def PrimaryTaken (e : Expr) (ws : List Word) : Prop :=
  ∀ n rest, 12 * (ws ++ rest).length + 2 ≤ n → headKind rest ≠ .symbol .lParen →
    Takes (ws ++ rest) (primary n) e.MadeOf rest

/-- Member accesses are read in a loop, of which the rest is given. -/
def AccessedTaken (e : Expr) (ws : List Word) : Prop :=
  ∀ n rest last post, 12 * (ws ++ rest).length + 2 ≤ n → headKind rest ≠ .symbol .lParen →
    (∀ n' base, 12 * rest.length + 1 ≤ n' → e.MadeOf base → Takes rest (members n' base) post last) →
    Takes (ws ++ rest) (primary n >>= members n) post last

/-- The words of a signed expression are read up to where it is closed off. -/
def SignedTaken (e : Expr) (ws : List Word) : Prop :=
  ∀ n rest, 12 * (ws ++ rest).length + 4 ≤ n → Closed rest → Takes (ws ++ rest) (unary n) e.MadeOf rest

/-- Operators are read in a loop, of which the rest is given. -/
def JoinedTaken (most : Nat) (loose : Bool) (e : Expr) (ws : List Word) : Prop :=
  ∀ n least rest last post, 12 * (ws ++ rest).length + 6 ≤ n → least ≤ most → Closed rest →
    Follows most loose rest →
    (∀ n' left, 12 * rest.length + 1 ≤ n' → e.MadeOf left →
      Takes rest (binaryRest n' least left) post last) →
    Takes (ws ++ rest) (binary n least) post last

/-- Arguments are read up to the closing parenthesis, behind those that are read already. -/
def ArgumentsTaken (es : List Expr) (ws : List Word) : Prop :=
  ∀ n rest done, 12 * (ws ++ .symbol .rParen :: rest).length + 7 ≤ n →
    Takes (ws ++ .symbol .rParen :: rest) (arguments n done)
      (fun trees => placelessList trees = placelessList done.reverse ++ untypedList es) (.symbol .rParen :: rest)

/-- A part of a query in brackets is read, or its absence. -/
def BracketedTaken (e : Option Expr) (ws : List Word) : Prop :=
  ∀ n rest, 12 * (ws ++ rest).length + 1 ≤ n →
    Takes (ws ++ rest) (bracketed n) (fun tree => placelessOption tree = untypedOption e) rest

/-- A function that needs a step has one. -/
theorem exists_step {c n : Nat} (h : c + 1 ≤ n) : ∃ m, n = m + 1 := Nat.exists_eq_add_one.2 (by omega)

/-- Operators that bind too loosely are left. -/
private theorem takes_binaryRest {n least : Nat} {left : Expr} {rest : List Word}
    (hfuel : 12 * rest.length + 1 ≤ n)
    (hrest : ∀ op rank, infixOf? (headKind rest) = some (op, rank) → rank < least) :
    Takes rest (binaryRest n least left) (fun tree => tree = left) rest := by
  obtain ⟨n, rfl⟩ := exists_step hfuel
  unfold Parser.binaryRest
  refine Takes.peekKind.bind fun k hk => ?_
  subst hk
  split
  case h_1 => exact Takes.pure rfl
  case h_2 op rank hop =>
    rw [if_pos (hrest op rank hop)]
    exact Takes.pure rfl

/-- Members end in front of other words. -/
private theorem takes_members {n : Nat} {base : Expr} {rest : List Word} (hfuel : 12 * rest.length + 1 ≤ n)
    (hrest : accessOf? (headKind rest) = none) :
    Takes rest (members n base) (fun tree => tree = base) rest := by
  obtain ⟨n, rfl⟩ := exists_step hfuel
  unfold Parser.members
  refine Takes.peekKind.bind fun k hk => ?_
  subst hk
  rw [hrest]
  exact Takes.pure rfl

/-- An expression is read up to words that do not go on with it. -/
theorem JoinedTaken.binary {loose : Bool} {e : Expr} {ws : List Word} (h : JoinedTaken 1 loose e ws) {n : Nat}
    (rest : List Word) (hfuel : 12 * (ws ++ rest).length + 6 ≤ n) (hrest : Settled rest) :
    Takes (ws ++ rest) (binary n 1) e.MadeOf rest := by
  have hnone : ∀ {op rank}, infixOf? (headKind rest) ≠ some (op, rank) := by
    intro op rank hop
    rw [hrest.operator] at hop
    exact nomatch hop
  refine h n 1 rest rest _ hfuel (Nat.le_refl 1) hrest.toClosed (fun _ _ hop => absurd hop hnone) ?_
  intro n' left hn' hleft
  exact (takes_binaryRest hn' fun _ _ hop => absurd hop hnone).weaken fun _ htree => htree ▸ hleft

/-! ## The cases of expressions -/

section Cases

variable {e l r x : Expr} {es : List Expr} {u o c : Option Expr} {i : ExprInfo} {ws us xs cs : List Word}

theorem PrimaryTaken.int {t : Text} {v : Int64} (hv : intValue? t = some v) :
    PrimaryTaken (.const i (.int v)) [.int t] := by
  intro n rest hfuel _
  obtain ⟨n, rfl⟩ := exists_step hfuel
  unfold Parser.primary
  refine Takes.peek.bind fun tok htok => ?_
  have hk : tok.kind = .int := kind_of_word htok
  rw [Token.word_int hk] at htok
  cases htok
  simp only [hk]
  refine (Takes.advance (w := .int tok.text) (by simp)).bind fun _ _ => ?_
  rw [hv]
  exact Takes.pure rfl

theorem PrimaryTaken.float {t : Text} {v : Double} (hv : Double.ofLiteral? t = some v) :
    PrimaryTaken (.const i (.float v)) [.float t] := by
  intro n rest hfuel _
  obtain ⟨n, rfl⟩ := exists_step hfuel
  unfold Parser.primary
  refine Takes.peek.bind fun tok htok => ?_
  have hk : tok.kind = .float := kind_of_word htok
  rw [Token.word_float hk] at htok
  cases htok
  simp only [hk]
  refine (Takes.advance (w := .float tok.text) (by simp)).bind fun _ _ => ?_
  rw [hv]
  exact Takes.pure rfl

theorem PrimaryTaken.string {t : Text} : PrimaryTaken (.const i (.string t)) [.string t] := by
  intro n rest hfuel _
  obtain ⟨n, rfl⟩ := exists_step hfuel
  unfold Parser.primary
  refine Takes.peek.bind fun tok htok => ?_
  have hk : tok.kind = .string := kind_of_word htok
  rw [Token.word_string hk] at htok
  cases htok
  simp only [hk]
  exact (Takes.advance (w := .string tok.text) (by simp)).bind fun _ _ => Takes.pure rfl

theorem PrimaryTaken.name {m : Text} {b : Option Binding} : PrimaryTaken (.var i m b) [.name m] := by
  intro n rest hfuel hrest
  obtain ⟨n, rfl⟩ := exists_step hfuel
  unfold Parser.primary
  refine Takes.peek.bind fun tok htok => ?_
  have hk : tok.kind = .ident := kind_of_word htok
  rw [Token.word_ident hk] at htok
  cases htok
  simp only [hk]
  refine Takes.advanceName.bind fun _ _ => Takes.atSymbol.bind fun b hb => ?_
  rw [if_neg (mt hb.1 hrest)]
  exact Takes.pure rfl

/-- The arguments of a call behind its name. -/
theorem ArgumentsTaken.callRest (h : ArgumentsTaken es ws) {n : Nat} {rest : List Word} (callee : Token)
    (hfuel : 12 * (.symbol .lParen :: (ws ++ .symbol .rParen :: rest)).length + 1 ≤ n) :
    Takes (.symbol .lParen :: (ws ++ .symbol .rParen :: rest)) (callRest n callee)
      (fun tree => tree.placeless = .apply callee.text {} (untypedList es) {}) rest := by
  obtain ⟨n, rfl⟩ := exists_step hfuel
  rw [List.length_cons] at hfuel
  unfold Parser.callRest
  refine Takes.advanceSymbol.bind fun _ _ => (h n rest [] (by omega)).bind fun args hargs => ?_
  refine Takes.expectSymbol.bind fun _ _ => Takes.pure ?_
  have hargs : placelessList args = untypedList es := hargs
  rw [Expr.apply, Expr.placeless, hargs, Expr.apply]

theorem PrimaryTaken.call {m : Text} {ns : Span} {target : Target} (h : ArgumentsTaken es ws) :
    PrimaryTaken (.call i m ns es target) (.name m :: .symbol .lParen :: (ws ++ [.symbol .rParen])) := by
  intro n rest hfuel _
  simp only [List.cons_append, List.append_assoc, List.nil_append] at hfuel ⊢
  obtain ⟨n, rfl⟩ := exists_step hfuel
  rw [List.length_cons] at hfuel
  -- The name in front is a name and the parenthesis behind it makes it a call.
  unfold Parser.primary
  refine Takes.peek.bind fun tok htok => ?_
  have hk : tok.kind = .ident := kind_of_word htok
  rw [Token.word_ident hk] at htok
  cases htok
  simp only [hk]
  refine Takes.advanceName.bind fun _ _ => Takes.atSymbol.bind fun b hb => ?_
  rw [if_pos (hb.2 rfl)]
  exact h.callRest tok (by omega)

theorem PrimaryTaken.parens {loose : Bool} (h : JoinedTaken 1 loose e ws) :
    PrimaryTaken e (.symbol .lParen :: (ws ++ [.symbol .rParen])) := by
  intro n rest hfuel _
  simp only [List.cons_append, List.append_assoc, List.nil_append] at hfuel ⊢
  obtain ⟨n, rfl⟩ := exists_step hfuel
  rw [List.length_cons] at hfuel
  unfold Parser.primary
  refine Takes.peek.bind fun tok htok => ?_
  have hk : tok.kind = .symbol .lParen := kind_of_word htok
  simp only [hk]
  refine Takes.advanceSymbol.bind fun _ _ =>
    (h.binary (.symbol .rParen :: rest) (by omega) (.of_closer (by decide) rest)).bind fun _ hinner => ?_
  exact Takes.expectSymbol.bind fun _ _ => Takes.pure hinner

theorem PrimaryTaken.query {kind op : Text} (hu : BracketedTaken u us) (hx : BracketedTaken o xs)
    (hc : BracketedTaken c cs) : PrimaryTaken (.query i kind op u o c)
      (.keyword .queryKw :: .name kind :: (us ++ .name op :: (xs ++ .keyword .whereKw :: cs))) := by
  intro n rest hfuel _
  simp only [List.cons_append, List.append_assoc] at hfuel ⊢
  obtain ⟨n, rfl⟩ := exists_step hfuel
  unfold Parser.primary
  refine Takes.peek.bind fun tok htok => ?_
  have hk : tok.kind = .keyword .queryKw := kind_of_word htok
  simp only [hk]
  simp only [List.length_cons, List.length_append] at hfuel
  have hsteps : 1 ≤ n := by omega
  obtain ⟨n, rfl⟩ := exists_step hsteps
  -- Kind, unit, operation, operand and condition are read
  -- one behind the other; the fuel covers each of them.
  unfold Parser.query
  refine Takes.advanceKeyword.bind fun mark _ => Takes.expectName.bind fun kind' hkind =>
    (hu n _ ?_).bind fun unit hunit => Takes.expectName.bind fun op' hop =>
    (hx n _ ?_).bind fun operand hoperand =>
    (Takes.expect (w := .keyword .whereKw) (by simp)).bind fun _ _ =>
    (hc n _ ?_).bind fun condition hcondition => Takes.lastSpan.bind fun last _ => ?_
  -- All parts are those of the tree, so the query is made of them.
  case refine_4 =>
    refine Takes.pure ?_
    simp only [Expr.MadeOf, Expr.placeless, Expr.untyped, hunit, hoperand, hcondition,
      text_of_name hkind, text_of_name hop]
  all_goals
    simp only [List.length_cons, List.length_append]
    omega

theorem BracketedTaken.none : BracketedTaken .none [.symbol .lBracket, .symbol .rBracket] := by
  intro n rest hfuel
  obtain ⟨n, rfl⟩ := exists_step hfuel
  unfold Parser.bracketed
  refine Takes.expectSymbol.bind fun _ _ => Takes.atSymbol.bind fun b hb => ?_
  rw [if_pos (hb.2 rfl)]
  exact Takes.advanceSymbol.bind fun _ _ => Takes.pure rfl

theorem BracketedTaken.some {loose : Bool} (h : JoinedTaken 1 loose e ws)
    (hopens : ∀ rest, opensExpr (headKind (ws ++ rest)) = true) :
    BracketedTaken (.some e) (.symbol .lBracket :: (ws ++ [.symbol .rBracket])) := by
  intro n rest hfuel
  simp only [List.cons_append, List.append_assoc, List.nil_append] at hfuel ⊢
  obtain ⟨n, rfl⟩ := exists_step hfuel
  rw [List.length_cons] at hfuel
  unfold Parser.bracketed
  refine Takes.expectSymbol.bind fun _ _ => Takes.atSymbol.bind fun b hb => ?_
  -- The expression does not begin with the bracket that would leave it out.
  have hne : ¬b = true := by
    intro h
    have hopen := hopens (.symbol .rBracket :: rest)
    rw [hb.1 h] at hopen
    cases hopen
  rw [if_neg hne]
  refine (h.binary (.symbol .rBracket :: rest) (by omega) (.of_closer (by decide) rest)).bind
    fun _ hinner => ?_
  exact Takes.expectSymbol.bind fun _ _ => Takes.pure (congrArg Option.some hinner)

theorem ArgumentsTaken.none : ArgumentsTaken [] [] := by
  intro n rest done hfuel
  obtain ⟨n, rfl⟩ := exists_step hfuel
  unfold Parser.arguments
  refine Takes.peekKind.bind fun k hk => ?_
  rw [if_pos (.inl hk)]
  exact Takes.pure (List.append_nil _).symm

/-- An argument is not taken for the end of the arguments. -/
private theorem not_end_of_opens {k : Token.Kind} (h : opensExpr k = true) :
    ¬(k = .symbol .rParen ∨ k = .eof) := by
  rintro (rfl | rfl) <;> exact nomatch h

/-- One more argument that is read. -/
private theorem placelessList_reverse_cons {tree : Expr} (h : e.MadeOf tree) (done : List Expr)
    (es : List Expr) : placelessList (tree :: done).reverse ++ untypedList es
      = placelessList done.reverse ++ untypedList (e :: es) := by
  have h : tree.placeless = e.untyped := h
  rw [List.reverse_cons, placelessList_append, List.append_assoc, untypedList, placelessList, h]
  rfl

theorem ArgumentsTaken.last {loose : Bool} (h : JoinedTaken 1 loose e ws)
    (hopens : ∀ rest, opensExpr (headKind (ws ++ rest)) = true) : ArgumentsTaken [e] ws := by
  intro n rest done hfuel
  obtain ⟨n, rfl⟩ := exists_step hfuel
  unfold Parser.arguments
  refine Takes.peekKind.bind fun k hk => ?_
  subst hk
  -- The loop does not stop, as the word ahead begins an expression.
  rw [if_neg (not_end_of_opens (hopens _))]
  refine (h.binary (.symbol .rParen :: rest) (by omega) (.of_closer (by decide) rest)).bind fun arg harg =>
    Takes.atSymbol.bind fun b hb => ?_
  -- No comma follows, but the closing parenthesis.
  rw [if_neg (mt hb.1 fun heq => by cases heq)]
  refine Takes.atSymbol.bind fun b hb => ?_
  rw [if_pos (hb.2 rfl)]
  refine Takes.pure ?_
  -- The arguments are collected in reverse.
  rw [← placelessList_reverse_cons harg]
  exact (List.append_nil _).symm

theorem ArgumentsTaken.more {loose : Bool} (h : JoinedTaken 1 loose e ws)
    (hopens : ∀ rest, opensExpr (headKind (ws ++ rest)) = true) (hmore : ArgumentsTaken es us) :
    ArgumentsTaken (e :: es) (ws ++ .symbol .comma :: us) := by
  intro n rest done hfuel
  simp only [List.cons_append, List.append_assoc] at hfuel ⊢
  obtain ⟨n, rfl⟩ := exists_step hfuel
  unfold Parser.arguments
  refine Takes.peekKind.bind fun k hk => ?_
  subst hk
  -- The word ahead begins an expression, and a comma stands behind it.
  rw [if_neg (not_end_of_opens (hopens _))]
  refine (h.binary (.symbol .comma :: (us ++ .symbol .rParen :: rest)) (by omega)
    (.of_closer (by decide) _)).bind fun arg harg => Takes.atSymbol.bind fun b hb => ?_
  rw [if_pos (hb.2 rfl)]
  -- The loop goes on with the argument put to those that are done.
  refine Takes.advanceSymbol.bind fun _ _ => (hmore n rest _ ?_).weaken fun _ htrees =>
    htrees.trans (placelessList_reverse_cons harg done es)
  simp only [List.length_append, List.length_cons] at hfuel ⊢
  omega

theorem AccessedTaken.primary (h : PrimaryTaken e ws) : AccessedTaken e ws := by
  intro n rest last post hfuel hrest hgo
  refine (h n rest hfuel hrest).bind fun head hhead => hgo n head ?_ hhead
  rw [List.length_append] at hfuel
  omega

theorem AccessedTaken.member {s : Symbol} {m : Text} {ms : Span} {a : Access} (h : AccessedTaken e ws)
    (ha : accessOf? (.symbol s) = some a) :
    AccessedTaken (.member i a e m ms) (ws ++ [.symbol s, .name m]) := by
  intro n rest last post hfuel hrest hgo
  simp only [List.append_assoc, List.cons_append, List.nil_append] at hfuel ⊢
  -- The loop goes on with this access where it would have ended behind the base.
  refine h n _ last post hfuel ?_ fun n' base hn' hbase => ?_
  -- An access symbol is no parenthesis, so the base does not become a call.
  · intro hs
    cases hs
    exact nomatch ha
  · obtain ⟨n', rfl⟩ := exists_step hn'
    rw [List.length_cons, List.length_cons] at hn'
    unfold Parser.members
    refine Takes.peekKind.bind fun k hk => ?_
    have hk : k = .symbol s := hk
    rw [hk, ha]
    refine Takes.advanceSymbol.bind fun mark _ => Takes.expectName.bind fun m' hm' =>
      hgo n' _ (by omega) ?_
    have hbase : base.placeless = e.untyped := hbase
    simp only [Expr.MadeOf, Expr.access, Expr.placeless, Expr.untyped, hbase, text_of_name hm']

/-- Powers are read where no prefix is. -/
private theorem takes_unary_of_power {n : Nat} {last : List Word} {post : Expr → Prop}
    (h : Takes ws (power n) post last) (hopens : opensPrimary (headKind ws) = true) :
    Takes ws (unary (n + 1)) post last := by
  unfold Parser.unary
  refine Takes.peekKind.bind fun k hk => ?_
  -- What begins a primary expression is no prefix.
  have hnone : prefixOf? k = .none := by
    unfold prefixOf?
    split
    all_goals first
      | rfl
      | rw [← hk] at hopens
        cases hopens
  rw [hnone]
  exact h

theorem SignedTaken.accessed (h : AccessedTaken e ws)
    (hopens : ∀ rest, opensPrimary (headKind (ws ++ rest)) = true) : SignedTaken e ws := by
  intro n rest hfuel hrest
  obtain ⟨n, rfl⟩ := exists_step hfuel
  refine takes_unary_of_power ?_ (hopens rest)
  have hsteps : 12 * (ws ++ rest).length + 3 ≤ n := by omega
  obtain ⟨n, rfl⟩ := exists_step hsteps
  -- The primary expression and its members are one step: what is known of them is known together.
  unfold Parser.power
  rw [← bind_assoc]
  refine Takes.bind (h n rest rest e.MadeOf (by omega) hrest.paren fun n' base hn' hbase =>
    (takes_members hn' hrest.access).weaken fun _ htree => htree ▸ hbase) fun base hbase =>
    Takes.atSymbol.bind fun b hb => ?_
  -- No power sign follows, so the base is all of it.
  rw [if_neg (mt hb.1 hrest.power)]
  exact Takes.pure hbase

theorem SignedTaken.power (h : AccessedTaken e ws)
    (hopens : ∀ rest, opensPrimary (headKind (ws ++ rest)) = true) (hx : SignedTaken x xs) :
    SignedTaken (.binary i .pow e x) (ws ++ .symbol .starStar :: xs) := by
  intro n rest hfuel hrest
  simp only [List.append_assoc, List.cons_append] at hfuel ⊢
  obtain ⟨n, rfl⟩ := exists_step hfuel
  refine takes_unary_of_power ?_ (hopens _)
  have hsteps : 12 * (ws ++ .symbol .starStar :: (xs ++ rest)).length + 3 ≤ n := by omega
  obtain ⟨n, rfl⟩ := exists_step hsteps
  unfold Parser.power
  -- The base is read up to the power sign, and the exponent is a signed expression again.
  rw [← bind_assoc]
  refine Takes.bind (h n _ (.symbol .starStar :: (xs ++ rest)) e.MadeOf (by omega) (fun heq => by cases heq)
    fun n' base hn' hbase => (takes_members hn' rfl).weaken fun _ htree => htree ▸ hbase) fun base hbase =>
    Takes.atSymbol.bind fun b hb => ?_
  rw [if_pos (hb.2 rfl)]
  refine Takes.advanceSymbol.bind fun _ _ => (hx n rest ?_ hrest).bind fun _ hexponent =>
    Takes.pure (.infixOp hbase hexponent)
  simp only [List.length_append, List.length_cons] at hsteps ⊢
  omega

theorem SignedTaken.sign {s : Symbol} {op : UnaryOp} (hop : prefixOf? (.symbol s) = some op)
    (hx : SignedTaken x xs) : SignedTaken (.unary i op x) (.symbol s :: xs) := by
  intro n rest hfuel hrest
  rw [List.cons_append] at hfuel ⊢
  obtain ⟨n, rfl⟩ := exists_step hfuel
  rw [List.length_cons] at hfuel
  unfold Parser.unary
  refine Takes.peekKind.bind fun k hk => ?_
  have hk : k = .symbol s := hk
  rw [hk, hop]
  exact Takes.advanceSymbol.bind fun mark _ => (hx n rest (by omega) hrest).bind fun _ hoperand =>
    Takes.pure (.prefixOp hoperand)

theorem JoinedTaken.operand {most : Nat} (h : SignedTaken e ws)
    (hopens : ∀ rest, headKind (ws ++ rest) ≠ .keyword .notKw) : JoinedTaken most false e ws := by
  intro n least rest last post hfuel _ hrest _ hgo
  obtain ⟨n, rfl⟩ := exists_step hfuel
  -- The operand is read first, and the loop behind it is the given one.
  have hoperand : Takes (ws ++ rest) (negation n) e.MadeOf rest := by
    have hsteps : 12 * (ws ++ rest).length + 5 ≤ n := by omega
    obtain ⟨n, rfl⟩ := exists_step hsteps
    unfold Parser.negation
    refine Takes.atKeyword.bind fun b hb => ?_
    rw [if_neg (mt hb.1 (hopens rest))]
    exact h n rest (by omega) hrest
  -- The loop goes on behind the operand with the same rank.
  unfold Parser.binary
  refine hoperand.bind fun left hleft => hgo n left ?_ hleft
  rw [List.length_append] at hfuel
  omega

theorem JoinedTaken.not {most : Nat} {loose : Bool} (h : JoinedTaken comparison loose x ws) :
    JoinedTaken most true (.unary i .not x) (.keyword .notKw :: ws) := by
  intro n least rest last post hfuel _ hrest hfollows hgo
  rw [List.cons_append] at hfuel ⊢
  obtain ⟨n, rfl⟩ := exists_step hfuel
  rw [List.length_cons] at hfuel
  -- Only `and` and `or` can follow, which the operand of `not` does not go on with.
  have hloose : ∀ op rank, infixOf? (headKind rest) = some (op, rank) → rank < comparison :=
    fun op rank hop => (hfollows op rank hop).2 rfl
  have hoperand : Takes (.keyword .notKw :: (ws ++ rest)) (negation n) (Expr.unary i .not x).MadeOf rest := by
    have hsteps : 12 * (ws ++ rest).length + 17 ≤ n := by omega
    obtain ⟨n, rfl⟩ := exists_step hsteps
    -- The operand of `not` is read like an operand of comparisons.
    have hx : Takes (ws ++ rest) (Parser.binary n comparison) x.MadeOf rest := by
      refine h n comparison rest rest _ (by omega) (Nat.le_refl _) hrest ?_ ?_
      · intro op rank hop
        have hlt := hloose op rank hop
        refine ⟨?_, fun _ => hlt⟩
        rw [leftRank, if_neg (Nat.ne_of_lt hlt)]
        omega
      · exact fun n' left hn' hleft => (takes_binaryRest hn' hloose).weaken fun _ htree => htree ▸ hleft
    unfold Parser.negation
    refine Takes.atKeyword.bind fun b hb => ?_
    rw [if_pos (hb.2 rfl)]
    exact Takes.advanceKeyword.bind fun mark _ => hx.bind fun _ hoperand =>
      Takes.pure (.prefixOp hoperand)
  -- Behind it the given loop goes on.
  unfold Parser.binary
  refine hoperand.bind fun left hleft => hgo n left ?_ hleft
  rw [List.length_append] at hfuel
  omega

/-- A rank is at most the one that a left operand has. -/
theorem le_leftRank (rank : Nat) : rank ≤ leftRank rank := by
  unfold leftRank
  split <;> omega

/-- Operands with an operator between them are read by the loop that reads the left one. -/
theorem JoinedTaken.operator {least rank : Nat} {left right : Bool} {op : BinaryOp} {w : Word}
    (hl : JoinedTaken (leftRank rank) left l ws) (hr : JoinedTaken (rank + 1) right r us)
    (hop : infixOf? w.kind = some (op, rank)) (hrank : least ≤ rank)
    (hleft : comparison ≤ rank → left = false) :
    JoinedTaken least right (.binary i op l r) (ws ++ w :: us) := by
  intro n least' rest last post hfuel hleast hrest hfollows hgo
  simp only [List.append_assoc, List.cons_append] at hfuel ⊢
  -- What follows binds no tighter than this operator, and two comparisons are never in a row.
  have hnext : ∀ op' rank', infixOf? (headKind rest) = some (op', rank') →
      rank' ≤ rank ∧ (rank = comparison → rank' ≠ comparison) := by
    intro op' rank' hop'
    have hle := (hfollows op' rank' hop').1
    have := le_leftRank rank'
    refine ⟨by omega, fun hc hc' => ?_⟩
    rw [leftRank, if_pos hc'] at hle
    omega
  have hw : w ≠ .eof := by
    rintro rfl
    exact nomatch hop
  -- The loop that reads the left operand goes on with this operator, whose right operand is read by
  -- a loop of its own; behind that the first loop is where it would have been without the operator.
  refine hl n least' _ last post hfuel ?_ (Closed.of_operator hop) ?_ ?_
  -- The rank of the left operand is not below that of the whole.
  · have := le_leftRank rank
    omega
  -- The operator itself follows the left operand, with its own rank.
  · intro op' rank' hop'
    obtain ⟨rfl, rfl⟩ := Prod.mk.inj (Option.some.inj (hop.symm.trans hop'))
    refine ⟨Nat.le_refl _, fun htrue => Nat.not_le.1 fun hle => ?_⟩
    rw [hleft hle] at htrue
    exact nomatch htrue
  · intro n' leftTree hn' hleftTree
    obtain ⟨n', rfl⟩ := exists_step hn'
    rw [List.length_cons] at hn'
    -- The right operand is read one rank higher and stops in front of what follows.
    have hright : Takes (us ++ rest) (Parser.binary n' (rank + 1)) r.MadeOf rest := by
      refine hr n' (rank + 1) rest rest _ (by omega) (Nat.le_refl _) hrest ?_ ?_
      · intro op' rank' hop'
        obtain ⟨hlower, hflat⟩ := hfollows op' rank' hop'
        exact ⟨by omega, hflat⟩
      · intro n'' left' hn'' hleft'
        refine (takes_binaryRest hn'' fun op' rank' hop' => ?_).weaken fun _ htree => htree ▸ hleft'
        exact Nat.lt_succ_of_le (hnext op' rank' hop').1
    -- The tree of both operands is the left operand of what follows.
    have hlast : ∀ rightTree, r.MadeOf rightTree →
        Takes rest (Parser.binaryRest n' least' (.infixOp op leftTree rightTree)) post last := by
      intro rightTree hrightTree
      refine hgo n' _ ?_ (.infixOp hleftTree hrightTree)
      rw [List.length_append] at hn'
      omega
    unfold Parser.binaryRest
    refine Takes.peekKind.bind fun k hk => ?_
    have hk : k = w.kind := hk
    rw [hk, hop]
    dsimp only
    -- The rank of the operator is not below what the loop admits.
    rw [if_neg (by omega)]
    refine (Takes.advance hw).bind fun _ _ => hright.bind fun rightTree hrightTree => ?_
    split
    case isTrue hc =>
      -- Behind a comparison the parser looks for another one.
      refine Takes.peekKind.bind fun k' hk' => ?_
      have hno : isComparison k' = false := by
        rw [hk', isComparison]
        split
        · rename_i heq
          exact decide_eq_false ((hnext _ _ heq).2 hc)
        · rfl
      rw [hno]
      exact hlast _ hrightTree
    case isFalse => exact hlast _ hrightTree

end Cases

end Parser

namespace Grammar

open AisScript.Parser

/-! ## Expressions -/

mutual

/-- The words of a primary expression are read. -/
theorem Primary.taken {e : Expr} {ws : List Word} : Primary e ws → PrimaryTaken e ws
  | .int hv => .int hv
  | .float hv => .float hv
  | .string => .string
  | .name => .name
  | .call hargs => .call hargs.taken
  | .query hu hx hc => .query hu.taken hx.taken hc.taken
  | .parens he => .parens he.taken

/-- The words of member accesses are read. -/
theorem Accessed.taken {e : Expr} {ws : List Word} : Accessed e ws → AccessedTaken e ws
  | .primary he => .primary (Primary.taken he)
  | .member hb ha => .member hb.taken ha

/-- The words of an operand are read. -/
theorem Signed.taken {e : Expr} {ws : List Word} : Signed e ws → SignedTaken e ws
  | .accessed he => .accessed he.taken he.opens
  | .power hb hx => .power hb.taken hb.opens hx.taken
  | .sign hop hx => .sign hop hx.taken

/-- The words of joined operands are read. -/
theorem Joined.taken {least : Nat} {loose : Bool} {e : Expr} {ws : List Word} :
    Joined least loose e ws → JoinedTaken least loose e ws
  | .operand he => .operand he.taken fun rest => (he.opens rest).2
  | .not hx => .not hx.taken
  | .operator hop hrank hl hleft hr => .operator hl.taken hr.taken hop hrank hleft

/-- The words of arguments are read. -/
theorem Arguments.taken {es : List Expr} {ws : List Word} : Arguments es ws → ArgumentsTaken es ws
  | .none => .none
  | .last he => .last he.taken he.opens
  | .more he hes => .more he.taken he.opens hes.taken

/-- The words of an expression in brackets are read. -/
theorem Bracketed.taken {e : Option Expr} {ws : List Word} : Bracketed e ws → BracketedTaken e ws
  | .none => .none
  | .some he => .some he.taken he.opens

end

/-- Expressions are read into their trees in front of words that do not go on with them. -/
theorem Expression.read {e : Expr} {ws rest : List Word} (h : Expression e ws) {n : Nat}
    (hfuel : 12 * (ws ++ rest).length + 6 ≤ n) (hrest : Settled rest) :
    Takes (ws ++ rest) (expr n) e.MadeOf rest := by
  obtain ⟨loose, he⟩ := h
  exact he.taken.binary rest hfuel hrest

/-- So they are accepted there. -/
theorem Expression.taken {e : Expr} {ws rest : List Word} (h : Expression e ws) {n : Nat}
    (hfuel : 12 * (ws ++ rest).length + 6 ≤ n) (hrest : Settled rest) :
    Accepts (ws ++ rest) (expr n) rest :=
  (h.read hfuel hrest).weaken fun _ _ => trivial

end Grammar

end AisScript
