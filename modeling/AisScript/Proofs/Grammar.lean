import AisScript.Parser.Stmt

/-!
# The grammar

Which words a tree is written with.  Words are tokens without their places: a name, a literal, a keyword
or a symbol.  The nonterminals of the grammar are relations between trees and words; what passes behind
the parser fill in, and the places in a tree, do not matter.

A tree can be written in more than one way, in these points only:

* parentheses may stand around every expression,
* a comma may follow the last argument and the last parameter,
* a number may have any spelling of its value, and a zero in an enumeration a minus in front,
* a conditional alone in an else block may be written with `elif`,
* the value of a member of an enumeration may be left out where counting on gives the same.

Binary operators are ranked from loose to tight.  An operand to the left of an operator has at least its
rank, one to the right a higher one, and comparisons have no comparison for an operand on either side.
An operand may begin with `not`, which reaches as far as it can: nothing but `and` and `or` can follow.

* `Word`, `Token.word`      words
* `Joined`, `Statement`     expressions and statements
* `Block.StepsClear`        no name is mistaken for the step of a loop
* `Block.Renders`           the words of a program
-/

namespace AisScript

/-! ## Words -/

/-- A token without its place. -/
inductive Word where
  | invalid
  | eof
  | name (text : Text)
  | int (text : Text)
  | float (text : Text)
  | string (text : Text)
  | code (text : Text)
  | keyword (k : Keyword)
  | symbol (s : Symbol)
deriving DecidableEq, Repr

/-- The kind of tokens that a word has. -/
def Word.kind : Word → Token.Kind
  | .invalid => .invalid
  | .eof => .eof
  | .name _ => .ident
  | .int _ => .int
  | .float _ => .float
  | .string _ => .string
  | .code _ => .code
  | .keyword k => .keyword k
  | .symbol s => .symbol s

/-- The kind of the first of the words. -/
def headKind (ws : List Word) : Token.Kind :=
  match ws with
  | [] => .eof
  | w :: _ => w.kind

/-- The word of a token. -/
def Token.word (t : Token) : Word :=
  match t.kind with
  | .invalid => .invalid
  | .eof => .eof
  | .ident => .name t.text
  | .int => .int t.text
  | .float => .float t.text
  | .string => .string t.text
  | .code => .code t.text
  | .keyword k => .keyword k
  | .symbol s => .symbol s

/-- A word has the kind of its token. -/
@[simp] theorem Token.kind_word (t : Token) : t.word.kind = t.kind := by
  unfold Token.word
  split <;> rename_i h <;> rw [h] <;> rfl

/-- The word of a name. -/
theorem Token.word_ident {t : Token} (h : t.kind = .ident) : t.word = .name t.text := by
  rw [Token.word, h]

/-- The word of an integer literal. -/
theorem Token.word_int {t : Token} (h : t.kind = .int) : t.word = .int t.text := by
  rw [Token.word, h]

/-- The word of a float literal. -/
theorem Token.word_float {t : Token} (h : t.kind = .float) : t.word = .float t.text := by
  rw [Token.word, h]

/-- The word of a string literal. -/
theorem Token.word_string {t : Token} (h : t.kind = .string) : t.word = .string t.text := by
  rw [Token.word, h]

/-- The word of a code literal. -/
theorem Token.word_code {t : Token} (h : t.kind = .code) : t.word = .code t.text := by
  rw [Token.word, h]

/-- The word of a keyword. -/
theorem Token.word_keyword {t : Token} {k : Keyword} (h : t.kind = .keyword k) : t.word = .keyword k := by
  rw [Token.word, h]

/-- The word of a symbol. -/
theorem Token.word_symbol {t : Token} {s : Symbol} (h : t.kind = .symbol s) : t.word = .symbol s := by
  rw [Token.word, h]

namespace Grammar

open AisScript.Parser

/-! ## Expressions -/

/-- The rank that the left operand of an operator has at least. -/
def leftRank (rank : Nat) : Nat := if rank = comparison then comparison + 1 else rank

mutual

/-- A literal, a name, a call, a query or an expression in parentheses. -/
inductive Primary : Expr → List Word → Prop where
  | int {i : ExprInfo} {t : Text} {v : Int64} (hv : intValue? t = some v) :
      Primary (.const i (.int v)) [.int t]
  | float {i : ExprInfo} {t : Text} {v : Double} (hv : Double.ofLiteral? t = some v) :
      Primary (.const i (.float v)) [.float t]
  | string {i : ExprInfo} {t : Text} : Primary (.const i (.string t)) [.string t]
  | name {i : ExprInfo} {n : Text} {b : Option Binding} : Primary (.var i n b) [.name n]
  | call {i : ExprInfo} {n : Text} {ns : Span} {args : List Expr} {target : Target} {ws : List Word}
      (hargs : Arguments args ws) :
      Primary (.call i n ns args target) (.name n :: .symbol .lParen :: (ws ++ [.symbol .rParen]))
  | query {i : ExprInfo} {kind op : Text} {u x c : Option Expr} {us xs cs : List Word}
      (hu : Bracketed u us) (hx : Bracketed x xs) (hc : Bracketed c cs) :
      Primary (.query i kind op u x c)
        (.keyword .queryKw :: .name kind :: (us ++ .name op :: (xs ++ .keyword .whereKw :: cs)))
  | parens {loose : Bool} {e : Expr} {ws : List Word} (he : Joined 1 loose e ws) :
      Primary e (.symbol .lParen :: (ws ++ [.symbol .rParen]))

/-- Member accesses behind a base. -/
inductive Accessed : Expr → List Word → Prop where
  | primary {e : Expr} {ws : List Word} (he : Primary e ws) : Accessed e ws
  | member {i : ExprInfo} {a : Access} {s : Symbol} {b : Expr} {n : Text} {ns : Span} {ws : List Word}
      (hb : Accessed b ws) (ha : accessOf? (.symbol s) = some a) :
      Accessed (.member i a b n ns) (ws ++ [.symbol s, .name n])

/-- The prefixes `-` and `~`, and powers. -/
inductive Signed : Expr → List Word → Prop where
  | accessed {e : Expr} {ws : List Word} (he : Accessed e ws) : Signed e ws
  | power {i : ExprInfo} {b x : Expr} {bs xs : List Word} (hb : Accessed b bs) (hx : Signed x xs) :
      Signed (.binary i .pow b x) (bs ++ .symbol .starStar :: xs)
  | sign {i : ExprInfo} {op : UnaryOp} {s : Symbol} {x : Expr} {ws : List Word}
      (hop : prefixOf? (.symbol s) = some op) (hx : Signed x ws) :
      Signed (.unary i op x) (.symbol s :: ws)

/-- Operands joined by operators of at least a given rank.  A *loose* one ends with the operand of a
`not`. -/
inductive Joined : (least : Nat) → (loose : Bool) → Expr → List Word → Prop where
  | operand {least : Nat} {e : Expr} {ws : List Word} (he : Signed e ws) : Joined least false e ws
  | not {least : Nat} {loose : Bool} {i : ExprInfo} {x : Expr} {ws : List Word}
      (hx : Joined comparison loose x ws) : Joined least true (.unary i .not x) (.keyword .notKw :: ws)
  | operator {least rank : Nat} {left right : Bool} {i : ExprInfo} {op : BinaryOp} {w : Word} {l r : Expr}
      {ls rs : List Word} (hop : infixOf? w.kind = some (op, rank)) (hrank : least ≤ rank)
      (hl : Joined (leftRank rank) left l ls) (hleft : comparison ≤ rank → left = false)
      (hr : Joined (rank + 1) right r rs) : Joined least right (.binary i op l r) (ls ++ w :: rs)

/-- Arguments with commas between them; one more comma may follow the last. -/
inductive Arguments : List Expr → List Word → Prop where
  | none : Arguments [] []
  | last {loose : Bool} {e : Expr} {ws : List Word} (he : Joined 1 loose e ws) : Arguments [e] ws
  | more {loose : Bool} {e : Expr} {es : List Expr} {ws us : List Word} (he : Joined 1 loose e ws)
      (hes : Arguments es us) : Arguments (e :: es) (ws ++ .symbol .comma :: us)

/-- An expression in brackets that may be absent. -/
inductive Bracketed : Option Expr → List Word → Prop where
  | none : Bracketed none [.symbol .lBracket, .symbol .rBracket]
  | some {loose : Bool} {e : Expr} {ws : List Word} (he : Joined 1 loose e ws) :
      Bracketed (some e) (.symbol .lBracket :: (ws ++ [.symbol .rBracket]))

end

/-- An expression. -/
def Expression (e : Expr) (ws : List Word) : Prop := ∃ loose, Joined 1 loose e ws

/-! ## Parts of statements -/

/-- An assignment: `name = value`. -/
inductive Assignment : Assign → List Word → Prop where
  | mk {i : AssignInfo} {v : Expr} {ws : List Word} (hv : Expression v ws) :
      Assignment (.mk i v) (.name i.name :: .symbol .assign :: ws)

/-- A clause of a loop header that may be absent. -/
inductive Clause : Option Assign → List Word → Prop where
  | none : Clause none []
  | some {a : Assign} {ws : List Word} (ha : Assignment a ws) : Clause (some a) ws

/-- The test of a loop header that may be absent. -/
inductive Test : Option Expr → List Word → Prop where
  | none : Test none []
  | some {e : Expr} {ws : List Word} (he : Expression e ws) : Test (some e) ws

/-- Parameters with commas between them; one more comma may follow the last. -/
inductive Parameters : List Param → List Word → Prop where
  | none : Parameters [] []
  | last {p : Param} : Parameters [p] [.name p.name]
  | more {p : Param} {ps : List Param} {ws : List Word} (hps : Parameters ps ws) :
      Parameters (p :: ps) (.name p.name :: .symbol .comma :: ws)

/-- The members of a bitfield, with positive widths. -/
inductive Fields : List BitfieldMember → List Word → Prop where
  | none : Fields [] []
  | more {n t : Text} {v : Int64} {ms : List BitfieldMember} {ws : List Word}
      (hv : intValue? t = some v) (hpos : 0 < v) (hms : Fields ms ws) :
      Fields (⟨n, v.toInt.toNat⟩ :: ms) (.name n :: .symbol .colon :: .int t :: ws)

/-- A given value of a member of an enumeration. -/
inductive Value : Int64 → List Word → Prop where
  | positive {t : Text} {v : Int64} (hv : intValue? t = some v) : Value v [.int t]
  | negative {t : Text} {v : Int64} (hv : intValue? t = some v) : Value (-v) [.symbol .minus, .int t]

/-- The members of an enumeration behind one with the value `counter`: a member without a value counts
on, a given value exceeds the one before. -/
inductive Members : (counter : Int64) → List EnumMember → List Word → Prop where
  | none {counter : Int64} : Members counter [] []
  | next {counter : Int64} {n : Text} {ms : List EnumMember} {ws : List Word}
      (hms : Members (counter + 1) ms ws) :
      Members counter (⟨n, counter + 1⟩ :: ms) (.name n :: ws)
  | given {counter v : Int64} {n : Text} {ms : List EnumMember} {vs ws : List Word} (hv : Value v vs)
      (hlt : counter < v) (hms : Members v ms ws) :
      Members counter (⟨n, v⟩ :: ms) (.name n :: .symbol .assign :: (vs ++ ws))

/-! ## Statements -/

mutual

/-- A statement that may stand anywhere. -/
inductive Statement : Stmt → List Word → Prop where
  | assign {a : Assign} {ws : List Word} (ha : Assignment a ws) : Statement (.assign a) ws
  | call {s ns : Span} {i : ExprInfo} {n : Text} {args : List Expr} {target : Target} {ws : List Word}
      (hargs : Arguments args ws) :
      Statement (.eval s (.call i n ns args target))
        (.name n :: .symbol .lParen :: (ws ++ [.symbol .rParen]))
  | assignMember {s ms : Span} {i j : ExprInfo} {n m : Text} {b : Option Binding} {v : Expr}
      {ws : List Word} (hv : Expression v ws) :
      Statement (.assignMember s (.member i .dotted (.var j n b) m ms) v)
        (.name n :: .symbol .dot :: .name m :: .symbol .assign :: ws)
  | cond {s : Span} {c : Expr} {t : Block} {f : Option Block} {cs ts fs : List Word}
      (hc : Expression c cs) (ht : Body false t ts) (hf : Else f fs) :
      Statement (.cond s c t f) (.keyword .ifKw :: (cs ++ (ts ++ fs)))
  | loop {s : Span} {c : Expr} {b : Block} {cs bs : List Word} (hc : Expression c cs)
      (hb : Body false b bs) :
      Statement (.loop s c b) (.keyword .whileKw :: (cs ++ (bs ++ [.keyword .endKw])))
  | forLoop {s : Span} {i st : Option Assign} {c : Option Expr} {b : Block} {is cs ss bs : List Word}
      (hi : Clause i is) (hc : Test c cs) (hst : Clause st ss) (hb : Body false b bs) :
      Statement (.forLoop s i c st b) (.keyword .forKw :: (is ++ .symbol .semicolon
        :: (cs ++ .symbol .semicolon :: (ss ++ (bs ++ [.keyword .endKw])))))
  | leave {s : Span} : Statement (.leave s) [.keyword .breakKw]
  | code {s : Span} {t : Text} : Statement (.code s t) [.code t]
  | require {s : Span} {p : Text} : Statement (.require s p) [.keyword .requireKw, .string p]
  | bitfieldDef {s ns : Span} {n : Text} {ms : List BitfieldMember} {ws : List Word} (hms : Fields ms ws)
      (hsome : ms ≠ []) (hdistinct : (ms.map BitfieldMember.name).Nodup) :
      Statement (.bitfieldDef s ⟨n, ms, ns⟩)
        (.keyword .bitfieldKw :: .name n :: (ws ++ [.keyword .endKw]))
  | enumDef {s ns : Span} {n : Text} {ms : List EnumMember} {ws : List Word} (hms : Members (-1) ms ws)
      (hsome : ms ≠ []) :
      Statement (.enumDef s ⟨n, ms, ns⟩) (.keyword .enumKw :: .name n :: (ws ++ [.keyword .endKw]))
  | funcDef {s ns : Span} {n : Text} {ps : List Param} {b : Block} {us bs : List Word}
      (hps : Parameters ps us) (hb : Body true b bs) :
      Statement (.funcDef s n ns ps b) (.keyword .defKw :: .name n :: .symbol .lParen
        :: (us ++ .symbol .rParen :: (bs ++ [.keyword .endKw])))

/-- Statements in order.  The last statement of a function may be a return. -/
inductive Statements : (ofFunction : Bool) → List Stmt → List Word → Prop where
  | none {ofFunction : Bool} : Statements ofFunction [] []
  | ret {s : Span} {v : Expr} {ws : List Word} (hv : Expression v ws) :
      Statements true [.ret s v] (.keyword .returnKw :: ws)
  | more {ofFunction : Bool} {s : Stmt} {ss : List Stmt} {ws us : List Word} (hs : Statement s ws)
      (hss : Statements ofFunction ss us) : Statements ofFunction (s :: ss) (ws ++ us)

/-- The statements of a block. -/
inductive Body : (ofFunction : Bool) → Block → List Word → Prop where
  | mk {ofFunction : Bool} {ss : List Stmt} {sp : Span} {ws : List Word}
      (hss : Statements ofFunction ss ws) : Body ofFunction (.mk [] ss sp) ws

/-- The rest of a conditional behind its first block. -/
inductive Else : Option Block → List Word → Prop where
  | none : Else none [.keyword .endKw]
  | some {b : Block} {ws : List Word} (hb : Body false b ws) :
      Else (some b) (.keyword .elseKw :: (ws ++ [.keyword .endKw]))
  | elif {s sp : Span} {c : Expr} {t : Block} {f : Option Block} {cs ts fs : List Word}
      (hc : Expression c cs) (ht : Body false t ts) (hf : Else f fs) :
      Else (some (.mk [] [.cond s c t f] sp)) (.keyword .elifKw :: (cs ++ (ts ++ fs)))

end

end Grammar

/-- A statement is written with some word. -/
theorem Grammar.Statement.ne_nil {s : Stmt} {ws : List Word} (h : Grammar.Statement s ws) : ws ≠ [] := by
  cases h with
  | assign ha => cases ha; nofun
  | _ => nofun

/-! ## Steps of loops -/

/-- A block that begins with a call or an assignment to a member: with a name in front of something
else than `=`. -/
def Block.opensWithName : Block → Bool
  | .mk _ (.eval _ _ :: _) _ | .mk _ (.assignMember _ _ _ :: _) _ => true
  | _ => false

mutual

/-- No loop header in a statement lacks its step in front of a body that begins with a call or an
assignment to a member.  The name there is read as that of the missing step. -/
def Stmt.StepsClear : Stmt → Prop
  | .block b => b.StepsClear
  | .cond _ _ t f => t.StepsClear ∧ StepsClearElse f
  | .loop _ _ b => b.StepsClear
  | .forLoop _ _ _ st b => (st = none → b.opensWithName = false) ∧ b.StepsClear
  | .funcDef _ _ _ _ b => b.StepsClear
  | .eval _ _ | .assign _ | .assignMember _ _ _ | .ret _ _ | .leave _ | .code _ _ | .bitfieldDef _ _
  | .enumDef _ _ | .require _ _ => True

/-- No loop header in statements lacks such a step. -/
def StepsClearStmts : List Stmt → Prop
  | [] => True
  | s :: ss => s.StepsClear ∧ StepsClearStmts ss

/-- No loop header in a block lacks such a step. -/
def Block.StepsClear : Block → Prop
  | .mk _ ss _ => StepsClearStmts ss

/-- No loop header in an else block lacks such a step. -/
def StepsClearElse : Option Block → Prop
  | none => True
  | some b => b.StepsClear

end

/-- A block in front of whose `end` no name stands first does not begin with a call. -/
theorem Grammar.Body.opensWithName_eq_false {ofFunction : Bool} {b : Block} {bs rest : List Word}
    (h : Grammar.Body ofFunction b bs) (hname : headKind (bs ++ rest) ≠ .ident) :
    b.opensWithName = false := by
  obtain ⟨hss⟩ := h
  cases hss with
  | none => rfl
  | ret => rfl
  | more hs _ =>
    cases hs with
    | call => exact absurd rfl hname
    | assignMember => exact absurd rfl hname
    | _ => rfl

/-! ## Programs -/

/-- A program is written with these words. -/
def Block.Renders (b : Block) (ws : List Word) : Prop := Grammar.Body false b ws

end AisScript
