import AisScript.Tree

/-!
# Expressions without places

What is written in an expression: the expression that the parser would make of it, with all places at the
beginning of the file.

* `Expr.placeless`   an expression without its places
* `Expr.untyped`     an expression with nothing but what was written
* `Expr.MadeOf`      trees that the parser makes of an expression
-/

namespace AisScript

mutual

/-- An expression without its places. -/
def Expr.placeless : Expr → Expr
  | .const i v => .const { i with span := {} } v
  | .var i n b => .var { i with span := {} } n b
  | .binary i op l r => .binary { i with span := {} } op l.placeless r.placeless
  | .unary i op x => .unary { i with span := {} } op x.placeless
  | .call i n _ args t => .call { i with span := {} } n {} (placelessList args) t
  | .member i a b n _ => .member { i with span := {} } a b.placeless n {}
  | .query i k op u x c =>
    .query { i with span := {} } k op (placelessOption u) (placelessOption x) (placelessOption c)

/-- Expressions without their places. -/
def placelessList : List Expr → List Expr
  | [] => []
  | e :: es => e.placeless :: placelessList es

/-- An expression that may be absent, without its places. -/
def placelessOption : Option Expr → Option Expr
  | none => none
  | some e => some e.placeless

end

mutual

/-- An expression before any pass and without its places: nothing but what was written. -/
def Expr.untyped : Expr → Expr
  | .const _ v => .literal v {}
  | .var _ n _ => .name n {}
  | .binary _ op l r => .binary { span := {} } op l.untyped r.untyped
  | .unary _ op x => .unary { span := {} } op x.untyped
  | .call _ n _ args _ => .apply n {} (untypedList args) {}
  | .member _ a b n _ => .member { span := {} } a b.untyped n {}
  | .query _ k op u x c => .query { span := {} } k op (untypedOption u) (untypedOption x) (untypedOption c)

/-- Expressions with nothing but what was written. -/
def untypedList : List Expr → List Expr
  | [] => []
  | e :: es => e.untyped :: untypedList es

/-- An expression that may be absent, with nothing but what was written. -/
def untypedOption : Option Expr → Option Expr
  | none => none
  | some e => some e.untyped

end

/-- A tree is what the parser makes of an expression as it is written. -/
def Expr.MadeOf (e tree : Expr) : Prop := tree.placeless = e.untyped

/-- Trees of operands make a tree of the operator between them. -/
theorem Expr.MadeOf.infixOp {l r left right : Expr} {i : ExprInfo} {op : BinaryOp} (hl : l.MadeOf left)
    (hr : r.MadeOf right) : (Expr.binary i op l r).MadeOf (.infixOp op left right) := by
  have hl : left.placeless = l.untyped := hl
  have hr : right.placeless = r.untyped := hr
  simp only [MadeOf, Expr.infixOp, placeless, untyped, hl, hr]

/-- A tree of an operand makes a tree of the operator in front of it. -/
theorem Expr.MadeOf.prefixOp {x tree : Expr} {i : ExprInfo} {op : UnaryOp} {span : Span}
    (hx : x.MadeOf tree) : (Expr.unary i op x).MadeOf (.prefixOp op tree span) :=
  congrArg (Expr.unary { span := {} } op) hx

/-- Without places, expressions stay in a row. -/
theorem placelessList_append (es fs : List Expr) :
    placelessList (es ++ fs) = placelessList es ++ placelessList fs := by
  induction es with
  | nil => rfl
  | cons e es ih => exact congrArg (e.placeless :: ·) ih

end AisScript
