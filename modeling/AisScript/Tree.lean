import AisScript.Intrinsic
import AisScript.Double

/-!
# Syntax trees

A program is a block of statements.  The parser builds bare trees; later passes fill in what they
find out: which assignments declare, the types of expressions, the bindings of names and what calls
stand for.  A call of a script's own function carries a private copy of the function's body, so
that each call can be typed and expanded on its own.

* `Expr`, `Assign`, `Stmt`, `Block`   the trees
* `Binding`                           what a name was found to mean
* `Target`                            what a call was found to mean
-/

namespace AisScript

/-! ## Operators -/

/-- Operators between two operands. -/
inductive BinaryOp where
  | add | sub | mul | div | mod | pow | bitOr | bitXor | bitAnd | shl | shr
  | lt | gt | le | ge | eq | ne | and | or
deriving DecidableEq, Repr

namespace BinaryOp

/-- Every binary operator, in order of declaration. -/
def all : List BinaryOp :=
  [.add, .sub, .mul, .div, .mod, .pow, .bitOr, .bitXor, .bitAnd, .shl, .shr,
    .lt, .gt, .le, .ge, .eq, .ne, .and, .or]

/-- The operator as written in generated code. -/
def symbol : BinaryOp → Text
  | .add => "+" | .sub => "-" | .mul => "*" | .div => "/" | .mod => "%" | .pow => "**"
  | .bitOr => "|" | .bitXor => "^" | .bitAnd => "&" | .shl => "<<" | .shr => ">>"
  | .lt => "<" | .gt => ">" | .le => "<=" | .ge => ">=" | .eq => "==" | .ne => "!="
  | .and => "&&" | .or => "||"

/-- Arithmetic on numbers. -/
def isArithmetic : BinaryOp → Bool
  | .add | .sub | .mul | .div | .mod | .pow => true
  | _ => false

/-- Work on bit patterns. -/
def isBitwise : BinaryOp → Bool
  | .bitOr | .bitXor | .bitAnd | .shl | .shr => true
  | _ => false

/-- Equality and its opposite. -/
def isEquality : BinaryOp → Bool
  | .eq | .ne => true
  | _ => false

/-- The connectives. -/
def isLogical : BinaryOp → Bool
  | .and | .or => true
  | _ => false

/-- Comparisons and connectives; all of them yield a truth value. -/
def isRelational (op : BinaryOp) : Bool := !op.isArithmetic && !op.isBitwise

end BinaryOp

/-- Operators in front of one operand. -/
inductive UnaryOp where
  | not | neg | bitNot
deriving DecidableEq, Repr

/-- Every unary operator, in order of declaration. -/
def UnaryOp.all : List UnaryOp := [.not, .neg, .bitNot]

/-- The operator as written in generated code. -/
def UnaryOp.symbol : UnaryOp → Text
  | .not => "!"
  | .neg => "-"
  | .bitNot => "~"

/-- The ways to reach a member: `e.m`, `e->m` and `e::m`. -/
inductive Access where
  | dotted | chronal | classwise
deriving DecidableEq, Repr

/-- The word for an access in messages. -/
def Access.word : Access → Text
  | .dotted => "dotted"
  | .chronal => "chronal"
  | .classwise => "class"

/-! ## Bindings -/

/-- Where a binding comes from. -/
inductive Origin where
  /-- A name the host declares. -/
  | host
  /-- A variable, a parameter or a loop variable of the script. -/
  | script
  /-- A member of an enumeration, with its value. -/
  | member (value : Int64)
  /-- The name of an enumeration itself. -/
  | enumeration
deriving DecidableEq, Repr

/-- What a name was found to mean.  The number tells bindings apart that have the same name. -/
structure Binding where
  id : Nat
  ty : Ty
  immutable : Bool := false
  origin : Origin := .script
deriving DecidableEq, Repr

/-! ## Trees -/

/-- The value of a literal. -/
inductive Literal where
  | int (value : Int64)
  | float (value : Double)
  | string (value : Text)
deriving DecidableEq, Repr

/-- The type a literal has from the start. -/
def Literal.ty : Literal → Ty
  | .int _ => .int
  | .float _ => .float
  | .string _ => .string

/-- What every expression has: its place and, once known, its type. -/
structure ExprInfo where
  span : Span
  ty : Option Ty := none
deriving DecidableEq, Repr

/-- What an assignment has beside its value.  `declares` is decided by the declaration pass;
`binds` marks the binding of a parameter, whose value belongs to the caller. -/
structure AssignInfo where
  span : Span
  name : Text
  nameSpan : Span
  declares : Bool := false
  binds : Bool := false
  binding : Option Binding := none
deriving DecidableEq, Repr

/-- A parameter of a function. -/
structure Param where
  name : Text
  span : Span := {}
deriving DecidableEq, Repr

mutual

/-- An expression. -/
inductive Expr where
  | const (info : ExprInfo) (value : Literal)
  | var (info : ExprInfo) (name : Text) (binding : Option Binding)
  | binary (info : ExprInfo) (op : BinaryOp) (left right : Expr)
  | unary (info : ExprInfo) (op : UnaryOp) (operand : Expr)
  | call (info : ExprInfo) (name : Text) (nameSpan : Span) (args : List Expr) (target : Target)
  | member (info : ExprInfo) (access : Access) (base : Expr) (name : Text) (nameSpan : Span)
  /-- `query kind [unit] op [operand] where [condition]`, each bracket possibly empty. -/
  | query (info : ExprInfo) (kind op : Text) (unit operand condition : Option Expr)

/-- What a call stands for. -/
inductive Target where
  | unresolved
  | intrinsic (operation : Intrinsic)
  /-- The constructor of a bitfield: a typed integer. -/
  | constructor (layout : Bitfield)
  /-- A function of the script: its parameters bound to the arguments, and its body. -/
  | function (binds : List Assign) (body : Block)

/-- An assignment to a variable. -/
inductive Assign where
  | mk (info : AssignInfo) (value : Expr)

/-- A statement. -/
inductive Stmt where
  | block (body : Block)
  | eval (span : Span) (value : Expr)
  | assign (assignment : Assign)
  /-- `a.m = value`; the target is a dotted member. -/
  | assignMember (span : Span) (target value : Expr)
  | cond (span : Span) (test : Expr) (thenBlock : Block) (elseBlock : Option Block)
  | loop (span : Span) (test : Expr) (body : Block)
  | forLoop (span : Span) (init : Option Assign) (test : Option Expr) (step : Option Assign)
      (body : Block)
  | ret (span : Span) (value : Expr)
  | leave (span : Span)
  /-- Text that is passed through to the generated code. -/
  | code (span : Span) (text : Text)
  | funcDef (span : Span) (name : Text) (nameSpan : Span) (params : List Param) (body : Block)
  | bitfieldDef (span : Span) (layout : Bitfield)
  | enumDef (span : Span) (definition : Enumeration)
  /-- Stands for the statements of another file until requires are resolved. -/
  | require (span : Span) (path : Text)

/-- Statements with a scope of their own.  The overrides bind the arguments of an expanded call and
come first. -/
inductive Block where
  | mk (overrides : List Assign) (stmts : List Stmt) (span : Span)

end

/-! ## Parts of trees -/

namespace Expr

/-- Place and type. -/
def info : Expr → ExprInfo
  | .const i _ | .var i _ _ | .binary i _ _ _ | .unary i _ _ | .call i _ _ _ _ | .member i _ _ _ _
  | .query i _ _ _ _ _ => i

/-- The place of an expression. -/
def span (e : Expr) : Span := e.info.span

/-- The type of an expression, once it is known. -/
def ty? (e : Expr) : Option Ty := e.info.ty

/-- The expression with another place and type. -/
def withInfo (i : ExprInfo) : Expr → Expr
  | .const _ v => .const i v
  | .var _ n b => .var i n b
  | .binary _ op l r => .binary i op l r
  | .unary _ op x => .unary i op x
  | .call _ n ns args t => .call i n ns args t
  | .member _ a b n ns => .member i a b n ns
  | .query _ k op u x c => .query i k op u x c

/-- The expression with its type filled in. -/
def withTy (e : Expr) (t : Ty) : Expr := e.withInfo { e.info with ty := some t }

/-- The expression at another place. -/
def withSpan (e : Expr) (s : Span) : Expr := e.withInfo { e.info with span := s }

/-- A literal; literals know their type from the start. -/
def literal (v : Literal) (span : Span) : Expr := .const { span, ty := some v.ty } v

/-- A name that is not resolved yet. -/
def name (n : Text) (span : Span) : Expr := .var { span := span } n none

/-- Two operands around an operator. -/
def infixOp (op : BinaryOp) (l r : Expr) : Expr := .binary { span := l.span.cover r.span } op l r

/-- An operator at `span` in front of an operand. -/
def prefixOp (op : UnaryOp) (x : Expr) (span : Span) : Expr := .unary { span := span.cover x.span } op x

/-- A member of a base. -/
def access (a : Access) (base : Expr) (name : Text) (nameSpan : Span) : Expr :=
  .member { span := base.span.cover nameSpan } a base name nameSpan

/-- A call that is not resolved yet. -/
def apply (name : Text) (nameSpan : Span) (args : List Expr) (span : Span) : Expr :=
  .call { span := span } name nameSpan args .unresolved

/-- The direct parts of an expression, from left to right. -/
def children : Expr → List Expr
  | .const _ _ | .var _ _ _ => []
  | .binary _ _ l r => [l, r]
  | .unary _ _ x => [x]
  | .call _ _ _ args _ => args
  | .member _ _ b _ _ => [b]
  | .query _ _ _ u x c => u.toList ++ x.toList ++ c.toList

end Expr

namespace Assign

/-- Everything but the value. -/
def info : Assign → AssignInfo
  | .mk i _ => i

/-- The assigned value. -/
def value : Assign → Expr
  | .mk _ v => v

/-- An assignment made by a pass: the name has the place of the whole. -/
def make (name : Text) (value : Expr) (declares : Bool) (span : Span) : Assign :=
  .mk { span, name, nameSpan := span, declares } value

end Assign

namespace Block

/-- The bindings of arguments. -/
def overrides : Block → List Assign
  | .mk os _ _ => os

/-- The statements. -/
def stmts : Block → List Stmt
  | .mk _ ss _ => ss

/-- The place of a block. -/
def span : Block → Span
  | .mk _ _ s => s

/-- The same block at another place. -/
def withSpan : Block → Span → Block
  | .mk os ss _, s => .mk os ss s

end Block

/-- The place of a statement. -/
def Stmt.span : Stmt → Span
  | .block b => b.span
  | .assign a => a.info.span
  | .eval s _ | .assignMember s _ _ | .cond s _ _ _ | .loop s _ _ | .forLoop s _ _ _ _ | .ret s _
  | .leave s | .code s _ | .funcDef s _ _ _ _ | .bitfieldDef s _ | .enumDef s _ | .require s _ => s

/-! ## Kinds and their names -/

/-- The kinds of expressions. -/
inductive ExprKind where
  | const | var | binary | unary | call | dotted | chronal | classwise | query
deriving DecidableEq, Repr

namespace ExprKind

/-- Every kind, in order of declaration. -/
def all : List ExprKind :=
  [.const, .var, .binary, .unary, .call, .dotted, .chronal, .classwise, .query]

/-- The name of a kind in listings. -/
def name : ExprKind → Text
  | .const => "Const" | .var => "VarRef" | .binary => "Binary" | .unary => "Unary"
  | .call => "Call" | .dotted => "Dotted" | .chronal => "Chronal" | .classwise => "Class"
  | .query => "Query"

end ExprKind

/-- The kind of member access. -/
def Access.kind : Access → ExprKind
  | .dotted => .dotted
  | .chronal => .chronal
  | .classwise => .classwise

/-- The kind of an expression. -/
def Expr.kind : Expr → ExprKind
  | .const _ _ => .const
  | .var _ _ _ => .var
  | .binary _ _ _ _ => .binary
  | .unary _ _ _ => .unary
  | .call _ _ _ _ _ => .call
  | .member _ a _ _ _ => a.kind
  | .query _ _ _ _ _ _ => .query

/-- The kinds of statements. -/
inductive StmtKind where
  | block | eval | assign | assignMember | cond | loop | forLoop | ret | leave | code
  | funcDef | bitfieldDef | enumDef | require
deriving DecidableEq, Repr

namespace StmtKind

/-- Every kind, in order of declaration. -/
def all : List StmtKind :=
  [.block, .eval, .assign, .assignMember, .cond, .loop, .forLoop, .ret, .leave, .code,
    .funcDef, .bitfieldDef, .enumDef, .require]

/-- The name of a kind in listings. -/
def name : StmtKind → Text
  | .block => "Block" | .eval => "Expr" | .assign => "Assign" | .assignMember => "BitfieldAssign"
  | .cond => "If" | .loop => "While" | .forLoop => "For" | .ret => "Return" | .leave => "Break"
  | .code => "Code" | .funcDef => "FuncDef" | .bitfieldDef => "BitfieldDef"
  | .enumDef => "EnumDef" | .require => "Require"

end StmtKind

/-- The kind of a statement. -/
def Stmt.kind : Stmt → StmtKind
  | .block _ => .block
  | .eval _ _ => .eval
  | .assign _ => .assign
  | .assignMember _ _ _ => .assignMember
  | .cond _ _ _ _ => .cond
  | .loop _ _ _ => .loop
  | .forLoop _ _ _ _ _ => .forLoop
  | .ret _ _ => .ret
  | .leave _ => .leave
  | .code _ _ => .code
  | .funcDef _ _ _ _ _ => .funcDef
  | .bitfieldDef _ _ => .bitfieldDef
  | .enumDef _ _ => .enumDef
  | .require _ _ => .require

/-- The name with a given number in a table, or a word for numbers past its end. -/
def nameOr {α : Type} (table : List α) (name : α → Text) (fallback : Text) (n : Nat) : Text :=
  match table[n]? with
  | some x => name x
  | none => fallback

end AisScript
