import AisScript.Proofs.Accepting
import AisScript.Proofs.MadeUp

/-!
# Writing expressions

How an expression is written with no more parentheses than the levels of its operators ask for, and that
the parser reads the words of it back into the expression.

Operators have levels, from loose to tight.  An operand stands in parentheses where its level is below the
one that its place asks for: to the left of an operator that groups to the left this is the level of the
operator, and to the right one more.  Comparisons ask for more on both sides, powers for more on the left
only, and the exponent of a power may begin with a prefix.

The words are shown to be derived by the grammar, for which `Derived` says what an expression of each level
is derived as.  That the parser reads what is derived is known.

* `Expr.level`              how tightly an expression holds together
* `Expr.written`            the words of an expression
* `expr_derived`            they are those of the expression in the grammar
* `Parser.expr_written`     the parser reads them back
-/

namespace AisScript

/-! ## Levels -/

/-- How tightly an operator between two operands binds. -/
def BinaryOp.level : BinaryOp → Nat
  | .or => 1
  | .and => 2
  | .lt | .gt | .le | .ge | .eq | .ne => 4
  | .bitOr => 5
  | .bitXor => 6
  | .bitAnd => 7
  | .shl | .shr => 8
  | .add | .sub => 9
  | .mul | .div | .mod => 10
  | .pow => 12

/-- How tightly an operator in front of its operand binds; this is also what it asks of the operand. -/
def UnaryOp.level : UnaryOp → Nat
  | .not => 3
  | .neg | .bitNot => 11

/-- How tightly an expression holds together. -/
def Expr.level : Expr → Nat
  | .binary _ op _ _ => op.level
  | .unary _ op _ => op.level
  | _ => 13

/-- No operator binds looser than `or`. -/
private theorem BinaryOp.one_le_level (op : BinaryOp) : 1 ≤ op.level := by cases op <;> decide

/-- No operator in front of its operand does. -/
private theorem UnaryOp.one_le_level (op : UnaryOp) : 1 ≤ op.level := by cases op <;> decide

/-- So nothing that an expression is written with does. -/
private theorem Expr.one_le_level (e : Expr) : 1 ≤ e.level := by
  cases e with
  | binary _ op => exact op.one_le_level
  | unary _ op => exact op.one_le_level
  | _ => exact (by decide : 1 ≤ 13)

/-- What an operator asks of its left operand: comparisons are not chained, and powers group to the
right. -/
def BinaryOp.leftLevel : BinaryOp → Nat
  | .lt | .gt | .le | .ge | .eq | .ne => 5
  | .pow => 13
  | op => op.level

/-- What an operator asks of its right operand: the exponent of a power may have prefixes. -/
def BinaryOp.rightLevel : BinaryOp → Nat
  | .pow => 11
  | op => op.level + 1

/-! ## Words -/

/-- The word of an operator between two operands. -/
def BinaryOp.written : BinaryOp → Word
  | .or => .keyword .orKw
  | .and => .keyword .andKw
  | .lt => .symbol .lt
  | .gt => .symbol .gt
  | .le => .symbol .ltEq
  | .ge => .symbol .gtEq
  | .eq => .symbol .eqEq
  | .ne => .symbol .bangEq
  | .bitOr => .symbol .pipe
  | .bitXor => .symbol .caret
  | .bitAnd => .symbol .amp
  | .shl => .symbol .shl
  | .shr => .symbol .shr
  | .add => .symbol .plus
  | .sub => .symbol .minus
  | .mul => .symbol .star
  | .div => .symbol .slash
  | .mod => .symbol .percent
  | .pow => .symbol .starStar

/-- The word of an operator in front of its operand. -/
def UnaryOp.written : UnaryOp → Word
  | .not => .keyword .notKw
  | .neg => .symbol .minus
  | .bitNot => .symbol .tilde

/-- The symbol of a member access. -/
def Access.written : Access → Symbol
  | .dotted => .dot
  | .chronal => .arrow
  | .classwise => .colonColon

/-- The word of a literal.  Only numbers that are not negative and strings have one. -/
def Literal.written : Literal → Word
  | .int v => .int (Text.ofNat v.toInt.toNat)
  | .string t => .string t
  | .float _ => .invalid

/-- Words in parentheses, where these are asked for. -/
def parenthesized (asked : Bool) (ws : List Word) : List Word :=
  if asked then .symbol .lParen :: (ws ++ [.symbol .rParen]) else ws

mutual

/-- The words of an expression, with no parentheses that the levels do not ask for. -/
def Expr.written : Expr → List Word
  | .const _ v => [v.written]
  | .var _ n _ => [.name n]
  | .binary _ op l r =>
    parenthesized (l.level < op.leftLevel) l.written
      ++ op.written :: parenthesized (r.level < op.rightLevel) r.written
  | .unary _ op x => op.written :: parenthesized (x.level < op.level) x.written
  | .call _ n _ args _ => .name n :: .symbol .lParen :: (writtenList args ++ [.symbol .rParen])
  | .member _ a b n _ => parenthesized (b.level < 13) b.written ++ [.symbol a.written, .name n]
  | .query _ kind op u x c =>
    .keyword .queryKw :: .name kind :: (writtenOption u
      ++ .name op :: (writtenOption x ++ .keyword .whereKw :: writtenOption c))

/-- The words of arguments, with commas between them. -/
def writtenList : List Expr → List Word
  | [] => []
  | [e] => e.written
  | e :: es => e.written ++ .symbol .comma :: writtenList es

/-- The words of an expression in brackets that may be absent. -/
def writtenOption : Option Expr → List Word
  | none => [.symbol .lBracket, .symbol .rBracket]
  | some e => .symbol .lBracket :: (e.written ++ [.symbol .rBracket])

end

/-- A literal that can be written. -/
def Literal.Writable : Literal → Prop
  | .int v => 0 ≤ v
  | .string _ => True
  | .float _ => False

mutual

/-- An expression whose literals are numbers that are not negative, and strings. -/
def Expr.Writable : Expr → Prop
  | .const _ v => v.Writable
  | .var _ _ _ => True
  | .binary _ _ l r => l.Writable ∧ r.Writable
  | .unary _ _ x => x.Writable
  | .call _ _ _ args _ => WritableList args
  | .member _ _ b _ _ => b.Writable
  | .query _ _ _ u x c => WritableOption u ∧ WritableOption x ∧ WritableOption c

/-- Such expressions. -/
def WritableList : List Expr → Prop
  | [] => True
  | e :: es => e.Writable ∧ WritableList es

/-- Such an expression that may be absent. -/
def WritableOption : Option Expr → Prop
  | none => True
  | some e => e.Writable

end

namespace Parser

/-! ## Numerals -/

/-- The value of a digit. -/
private theorem hexValue_byte {c : Char} (h : c.isDigit = true) :
    (hexValue (Text.byte c)).toNat = c.toNat - '0'.toNat := by
  -- The byte is between the digits zero and nine.
  simp only [Char.isDigit, Bool.and_eq_true, decide_eq_true_eq] at h
  have hge : 48 ≤ c.toNat := h.1
  have hle : c.toNat ≤ 57 := h.2
  have hbyte : (Text.byte c).toNat = c.toNat := by
    simp only [Text.byte, Nat.toUInt8, UInt8.toNat_ofNat']
    exact Nat.mod_eq_of_lt (by omega)
  have hdigit : Text.isDigit (Text.byte c) = true := by
    simp only [Text.isDigit, Bool.and_eq_true, decide_eq_true_eq, UInt8.le_iff_toNat_le, hbyte]
    exact ⟨hge, hle⟩
  have hzero : (0x30 : UInt8) ≤ Text.byte c := by
    rw [UInt8.le_iff_toNat_le, hbyte]
    exact hge
  -- So its value is the distance to zero.
  rw [hexValue, if_pos hdigit, UInt8.toNat_sub_of_le _ _ hzero, hbyte]
  rfl

/-- Numerals have the value that they are made for. -/
private theorem digitsValue_ofNat (n : Nat) : digitsValue 10 (Text.ofNat n) = n := by
  have hfold : ∀ (cs : List Char) (k : Nat), (∀ c ∈ cs, c.isDigit = true) →
      (cs.map Text.byte).foldl (fun n b => n * 10 + (hexValue b).toNat) k = Nat.ofDigitChars 10 cs k := by
    intro cs
    induction cs with
    | nil => exact fun _ _ => rfl
    | cons c cs ih =>
      intro k hdigits
      rw [List.map_cons, List.foldl_cons, Nat.ofDigitChars_cons,
        ih _ fun c' hc' => hdigits c' (List.mem_cons_of_mem c hc'),
        hexValue_byte (hdigits c List.mem_cons_self), Nat.mul_comm]
  exact (hfold _ 0 fun _ hc => Nat.isDigit_of_mem_toDigits (by decide) (by decide) hc).trans
    Nat.ofDigitChars_ten_toDigits

/-- A number that is not negative is written with a numeral of it. -/
private theorem intValue?_ofNat {v : Int64} (hv : 0 ≤ v) : intValue? (Text.ofNat v.toInt.toNat) = some v := by
  -- The numeral is one of a number that fits.
  have hpos : 0 ≤ v.toInt := Int64.le_iff_toInt_le.1 hv
  have hlt : v.toInt.toNat < 0x8000000000000000 := by
    have := Int64.toInt_lt v
    omega
  have hnat : Int64.ofNat v.toInt.toNat = v := by
    rw [← Int64.ofInt_eq_ofNat, Int.toNat_of_nonneg hpos, Int64.ofInt_toInt]
  have hnone : ∀ b ∈ Text.ofNat v.toInt.toNat, b ≠ 0x78 ∧ b ≠ 0x58 := by
    -- No digit is a letter that marks hexadecimal numerals.
    intro b hb
    have hdigit := isDigit_of_mem_ofNat hb
    constructor
    all_goals
      rintro rfl
      exact nomatch hdigit
  unfold intValue?
  -- Is the second byte a letter?
  split
  case h_1 x digits heq =>
    have hx : ¬(x = 0x78 || x = 0x58) = true := by
      have hmem : x ∈ Text.ofNat v.toInt.toNat := heq ▸ List.mem_cons_of_mem _ List.mem_cons_self
      simp only [hnone x hmem, decide_false, Bool.or_self, Bool.false_eq_true, not_false_eq_true]
    simp only [if_neg hx, digitsValue_ofNat, if_pos hlt, hnat]
  -- It is not, so the numeral is decimal.
  case h_2 =>
    simp only [digitsValue_ofNat, if_pos hlt, hnat]

end Parser

namespace Grammar

open AisScript.Parser

/-! ## Derivations -/

/-- The operators other than powers have their levels for ranks. -/
private theorem infixOf?_written {op : BinaryOp} (h : op ≠ .pow) :
    infixOf? op.written.kind = some (op, op.level) := by
  cases op <;> first | rfl | exact absurd rfl h

/-- What an expression is derived as by the grammar, for all that its level allows. -/
structure Derived (e : Expr) : Prop where
  accessed : 13 ≤ e.level → Accessed e e.written
  signed : 11 ≤ e.level → Signed e e.written
  joined : ∀ least, least ≤ e.level ∨ e.level = 3 →
    ∃ loose, Joined least loose e e.written ∧ (comparison ≤ e.level → loose = false)

/-- What may be the base of a member access holds together in every place. -/
private theorem Derived.of_accessed {e : Expr} (h : Accessed e e.written) : Derived e where
  accessed _ := h
  signed _ := .accessed h
  joined _ _ := ⟨false, .operand (.accessed h), fun _ => rfl⟩

/-- What has prefixes or is a power is an operand. -/
private theorem Derived.of_signed {e : Expr} (h : Signed e e.written) (hlevel : e.level < 13) :
    Derived e where
  accessed hle := absurd hlevel (Nat.not_lt.2 hle)
  signed _ := h
  joined _ _ := ⟨false, .operand h, fun _ => rfl⟩

section Places

variable {e : Expr} (h : Derived e)

include h

/-- Written alone, it is an expression. -/
theorem Derived.expression : Expression e e.written := by
  obtain ⟨loose, he, _⟩ := h.joined 1 (.inl e.one_le_level)
  exact ⟨loose, he⟩

/-- In parentheses, it is a primary expression. -/
theorem Derived.parens : Primary e (.symbol .lParen :: (e.written ++ [.symbol .rParen])) := by
  obtain ⟨_, he⟩ := h.expression
  exact .parens he

/-- An expression in the place of a base. -/
theorem Derived.base : Accessed e (parenthesized (e.level < 13) e.written) := by
  by_cases hlt : e.level < 13
  · rw [parenthesized, if_pos (decide_eq_true hlt)]
    exact .primary h.parens
  · rw [parenthesized, if_neg (mt of_decide_eq_true hlt)]
    exact h.accessed (Nat.le_of_not_lt hlt)

/-- An expression in the place of an exponent, or behind a prefix. -/
theorem Derived.exponent : Signed e (parenthesized (e.level < 11) e.written) := by
  by_cases hlt : e.level < 11
  · rw [parenthesized, if_pos (decide_eq_true hlt)]
    exact .accessed (.primary h.parens)
  · rw [parenthesized, if_neg (mt of_decide_eq_true hlt)]
    exact h.signed (Nat.le_of_not_lt hlt)

/-- An expression in the place of an operand, where everything of the level that is asked for is joined
tightly enough. -/
theorem Derived.operand (asked least : Nat) (hasked : asked ≤ e.level → least ≤ e.level ∨ e.level = 3) :
    ∃ loose, Joined least loose e (parenthesized (e.level < asked) e.written)
      ∧ (comparison ≤ asked → loose = false) := by
  by_cases hlt : e.level < asked
  · rw [parenthesized, if_pos (decide_eq_true hlt)]
    exact ⟨false, .operand (.accessed (.primary h.parens)), fun _ => rfl⟩
  · rw [parenthesized, if_neg (mt of_decide_eq_true hlt)]
    have hle := Nat.le_of_not_lt hlt
    obtain ⟨loose, he, hloose⟩ := h.joined least (hasked hle)
    exact ⟨loose, he, fun hc => hloose (Nat.le_trans hc hle)⟩

end Places

/-- Operands with an operator between them. -/
theorem Derived.binary {i : ExprInfo} {op : BinaryOp} {l r : Expr} (hl : Derived l) (hr : Derived r) :
    Derived (.binary i op l r) := by
  -- Powers have signed operands, all others are told apart by their levels.
  by_cases hpow : op = .pow
  · subst hpow
    exact .of_signed (.power hl.base hr.exponent) (by decide : 12 < 13)
  · have hlevel : op.level ≤ 10 ∧ op.level ≠ 3 ∧ op.leftLevel = leftRank op.level
        ∧ op.rightLevel = op.level + 1 := by
      cases op <;> first | decide | exact absurd rfl hpow
    obtain ⟨hle, hnot, hleft, hright⟩ := hlevel
    have hlevel : (Expr.binary i op l r).level = op.level := rfl
    refine ⟨fun h => absurd h (by omega), fun h => absurd h (by omega), fun least hleast => ?_⟩
    -- The level of the operator is allowed.
    have hleast : least ≤ op.level := hleast.resolve_right hnot
    -- Both operands can stand where they are, at the levels that the operator asks for.
    obtain ⟨_, hjl, hfirm⟩ := hl.operand op.leftLevel (leftRank op.level) fun h => .inl (hleft ▸ h)
    obtain ⟨loose, hjr, hfirm'⟩ := hr.operand op.rightLevel (op.level + 1) fun h => .inl (hright ▸ h)
    refine ⟨loose, .operator (infixOf?_written hpow) hleast hjl ?_ hjr, ?_⟩
    -- The left operand is firm where comparisons are.
    · intro hc
      refine hfirm (Nat.le_trans hc ?_)
      rw [hleft]
      exact le_leftRank _
    -- So is the right one.
    · intro hc
      refine hfirm' ?_
      rw [hright]
      exact Nat.le_succ_of_le hc

/-- An operand with an operator in front. -/
theorem Derived.unary {i : ExprInfo} {op : UnaryOp} {x : Expr} (hx : Derived x) :
    Derived (.unary i op x) := by
  cases op with
  | neg => exact .of_signed (.sign rfl hx.exponent) (by decide : 11 < 13)
  | bitNot => exact .of_signed (.sign rfl hx.exponent) (by decide : 11 < 13)
  | not =>
    have hlevel : (Expr.unary i .not x).level = 3 := rfl
    refine ⟨fun h => absurd h (by omega), fun h => absurd h (by omega), fun least _ => ?_⟩
    -- What binds as tightly as `not` is another `not`, or binds as tightly as a comparison.
    obtain ⟨_, hjoined, _⟩ := hx.operand 3 comparison fun h =>
      (Nat.eq_or_lt_of_le h).elim (fun heq => .inr heq.symm) .inl
    exact ⟨true, .not hjoined, fun hc => absurd hc (by rw [hlevel]; decide)⟩

/-- The word of a literal is derived from it. -/
private theorem literal_derived {i : ExprInfo} {v : Literal} (h : v.Writable) :
    Primary (.const i v) [v.written] := by
  cases v with
  | int v => exact .int (intValue?_ofNat h)
  | float v => exact absurd h id
  | string t => exact .string

mutual

/-- The words of an expression are derived from it by the grammar. -/
private theorem expr_derived : (e : Expr) → e.Writable → Derived e
  | .const _ _, h => .of_accessed (.primary (literal_derived h))
  | .var _ _ _, _ => .of_accessed (.primary .name)
  | .binary _ _ l r, h => (expr_derived l h.1).binary (expr_derived r h.2)
  | .unary _ _ x, h => (expr_derived x h).unary
  | .call _ _ _ args _, h => .of_accessed (.primary (.call (arguments_derived args h)))
  | .member _ a b _ _, h => .of_accessed (.member (expr_derived b h).base (by cases a <;> rfl))
  | .query _ _ _ u x c, h =>
    .of_accessed
      (.primary (.query (bracketed_derived u h.1) (bracketed_derived x h.2.1) (bracketed_derived c h.2.2)))

/-- So are those of arguments. -/
private theorem arguments_derived : (es : List Expr) → WritableList es → Arguments es (writtenList es)
  | [], _ => .none
  | [e], h => (expr_derived e h.1).expression.elim fun _ he => .last he
  | e :: e' :: es, h =>
    (expr_derived e h.1).expression.elim fun _ he => .more he (arguments_derived (e' :: es) h.2)

/-- So are those of an expression in brackets. -/
private theorem bracketed_derived : (o : Option Expr) → WritableOption o → Bracketed o (writtenOption o)
  | none, _ => .none
  | some e, h => (expr_derived e h).expression.elim fun _ he => .some he

end

end Grammar

/-! ## Reading back -/

/-- Where the lexer has nothing to say about the lexemes that were consumed and the one behind them, a run in
which the parser reports nothing leaves the reports as they are. -/
private theorem ParseState.Quiet.reports_eq {s s' : ParseState} (h : s.Quiet s') {n : Nat}
    (hahead : s'.ahead = s.ahead.drop n) (hsilent : ∀ l ∈ s.ahead.take (n + 1), l.reports = []) :
    s'.reports = s.reports := by
  -- The lexer has nothing to say about any of the first lexemes.
  have hdrop : ∀ k ≤ n + 1, (s.ahead.drop k).flatMap Lexeme.reports = s.ahead.flatMap Lexeme.reports := by
    intro k hk
    have hnil : (s.ahead.take k).flatMap Lexeme.reports = [] :=
      List.flatMap_eq_nil_iff.2 fun l hl => hsilent l (List.take_subset_take_left _ hk hl)
    calc (s.ahead.drop k).flatMap Lexeme.reports
      _ = (s.ahead.take k).flatMap Lexeme.reports ++ (s.ahead.drop k).flatMap Lexeme.reports := by
        rw [hnil, List.nil_append]
      _ = s.ahead.flatMap Lexeme.reports := by rw [← List.flatMap_append, List.take_append_drop]
  -- Whether the first lexeme was seen or not makes no difference in front.
  have hfront : (if s.seen then s.ahead.tail else s.ahead).flatMap Lexeme.reports
      = s.ahead.flatMap Lexeme.reports := by
    split
    · rw [← List.drop_one]
      exact hdrop 1 (Nat.le_add_left 1 n)
    · rfl
  -- Nor does it behind.
  have hbehind : (if s'.seen then s'.ahead.tail else s'.ahead).flatMap Lexeme.reports
      = s.ahead.flatMap Lexeme.reports := by
    split
    · rw [hahead, List.tail_drop]
      exact hdrop (n + 1) (Nat.le_refl _)
    · rw [hahead]
      exact hdrop n (Nat.le_succ n)
  -- What was told is the same, so the reports are.
  have htold := h.told
  rw [ParseState.told, ParseState.told, hfront, hbehind] at htold
  exact List.reverse_inj.1 (List.append_cancel_right htold)

/-- The words of an expression, in front of words that do not go on with it, are read back into the
expression: the same tree comes out but for places, nothing is reported, and the parser stops right behind
the last of these words. -/
theorem Parser.expr_written {e : Expr} (hwritable : e.Writable) (hbare : e.placeless = e.untyped)
    {rest : List Word} (hrest : Settled rest) {s : ParseState} (hs : s.words = e.written ++ rest) {n : Nat}
    (hsteps : 12 * s.ahead.length + 6 ≤ n) :
    ∃ e' s', (expr n).run s = (some e', s') ∧ e'.placeless = e.placeless
      ∧ s'.ahead = s.ahead.drop e.written.length ∧ s'.errors = s.errors ∧ s'.told = s.told
      ∧ ((∀ l ∈ s.ahead.take (e.written.length + 1), l.reports = []) → s'.reports = s.reports) := by
  -- The steps are enough for the words of the expression.
  have hfuel : 12 * (e.written ++ rest).length + 6 ≤ n := by
    rw [← hs, ParseState.words, List.length_map]
    exact hsteps
  -- The expression is derived, so its words are read.
  obtain ⟨e', s', hrun, hquiet, hs', he'⟩ :=
    (Grammar.expr_derived e hwritable).expression.read hfuel hrest s hs
  -- What is left is as long as the words behind.
  have hahead : s'.ahead = s.ahead.drop e.written.length := by
    have hlen : s.ahead.length = e.written.length + rest.length := by
      rw [← List.length_append, ← hs, ParseState.words, List.length_map]
    have hlen' : s'.ahead.length = rest.length := by rw [← hs', ParseState.words, List.length_map]
    rw [List.suffix_iff_eq_drop.1 hquiet.ahead, hlen, hlen', Nat.add_sub_cancel]
  -- The tree is the same without its places, as nothing of it was typed.
  exact ⟨e', s', hrun, Eq.trans he' hbare.symm, hahead, hquiet.errors, hquiet.told,
    hquiet.reports_eq hahead⟩

/-- A disjunction whose operands begin with `not` and with a difference that is a factor. -/
def mixedExpr : Expr :=
  .infixOp .or
    (.prefixOp .not
      (.infixOp .eq (.name "a" {}) (.infixOp .pow (.literal (.int 2) {}) (.prefixOp .neg (.name "b" {}) {}))) {})
    (.infixOp .mul (.infixOp .sub (.name "x" {}) (.literal (.int 1) {}))
      (.access .dotted (.apply "f" {} [.name "y" {}] {}) "m" {}))

/-- A lexeme about which the lexer has nothing to say. -/
def silentLexeme (kind : Token.Kind) (text : Text) : Lexeme := ⟨{ kind, span := {}, text }, []⟩

/-- The parser in front of `not a == 2 ** -b or (x - 1) * f(y).m;`. -/
def mixedState : ParseState where
  ahead :=
    [silentLexeme (.keyword .notKw) "not", silentLexeme .ident "a", silentLexeme (.symbol .eqEq) "==",
      silentLexeme .int "2", silentLexeme (.symbol .starStar) "**", silentLexeme (.symbol .minus) "-",
      silentLexeme .ident "b", silentLexeme (.keyword .orKw) "or", silentLexeme (.symbol .lParen) "(",
      silentLexeme .ident "x", silentLexeme (.symbol .minus) "-", silentLexeme .int "1",
      silentLexeme (.symbol .rParen) ")", silentLexeme (.symbol .star) "*", silentLexeme .ident "f",
      silentLexeme (.symbol .lParen) "(", silentLexeme .ident "y", silentLexeme (.symbol .rParen) ")",
      silentLexeme (.symbol .dot) ".", silentLexeme .ident "m", silentLexeme (.symbol .semicolon) ";",
      silentLexeme .eof ""]
  last := {}

/-- It is read back, up to the semicolon. -/
theorem Parser.expr_written_mixed :
    mixedState.words = mixedExpr.written ++ [.symbol .semicolon, .eof] ∧
    ∃ e' s', (expr 300).run mixedState = (some e', s') ∧ e'.placeless = mixedExpr.placeless
      ∧ s'.ahead = mixedState.ahead.drop mixedExpr.written.length ∧ s'.errors = 0
      ∧ s'.told = mixedState.told
      ∧ ((∀ l ∈ mixedState.ahead.take (mixedExpr.written.length + 1), l.reports = []) → s'.reports = []) := by
  have hwords : mixedState.words = mixedExpr.written ++ [.symbol .semicolon, .eof] := by decide
  have hwritable : mixedExpr.Writable := by
    refine ⟨⟨trivial, ?_, trivial⟩, ⟨trivial, ?_⟩, trivial, trivial⟩
    · exact (by decide : (0 : Int64) ≤ 2)
    · exact (by decide : (0 : Int64) ≤ 1)
  exact ⟨hwords, expr_written hwritable rfl (.of_closer (by decide) [.eof]) hwords (by decide)⟩

end AisScript
