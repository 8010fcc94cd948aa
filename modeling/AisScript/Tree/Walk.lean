import AisScript.Tree

/-!
# Walking trees

The nodes of a tree in order: a statement before its parts; of those first its own expressions, then
the clauses of a loop header, then nested blocks.  An expression comes before its operands.  The
private bodies of calls are not part of the walk.

* `Expr.nodes`, `Block.nodes`   all nodes in order
* `Block.spansFault?`           the first node whose place lies outside its file
-/

namespace AisScript

mutual

/-- An expression and everything below it. -/
def Expr.nodes : Expr → List Expr
  | e@(.const _ _) | e@(.var _ _ _) => [e]
  | e@(.binary _ _ l r) => e :: (l.nodes ++ r.nodes)
  | e@(.unary _ _ x) => e :: x.nodes
  | e@(.call _ _ _ args _) => e :: nodesOfList args
  | e@(.member _ _ b _ _) => e :: b.nodes
  | e@(.query _ _ _ u x c) => e :: (nodesOfOption u ++ nodesOfOption x ++ nodesOfOption c)

/-- Everything in a list of expressions. -/
def nodesOfList : List Expr → List Expr
  | [] => []
  | e :: es => e.nodes ++ nodesOfList es

/-- Everything in an expression that may be absent. -/
def nodesOfOption : Option Expr → List Expr
  | none => []
  | some e => e.nodes

end

/-- A node of a program. -/
inductive Node where
  | stmt (s : Stmt)
  | expr (e : Expr)

/-- The nodes of an expression. -/
def exprNodes (e : Expr) : List Node := e.nodes.map .expr

/-- The nodes of an assignment. -/
def Assign.nodes (a : Assign) : List Node := .stmt (.assign a) :: exprNodes a.value

/-- The nodes of a clause that may be absent. -/
def clauseNodes (a : Option Assign) : List Node :=
  match a with
  | some a => a.nodes
  | none => []

mutual

/-- A statement and everything below it. -/
def Stmt.nodes : Stmt → List Node
  | s@(.block b) => .stmt s :: b.nodes
  | .assign a => a.nodes
  | s@(.eval _ e) | s@(.ret _ e) => .stmt s :: exprNodes e
  | s@(.assignMember _ t v) => .stmt s :: (exprNodes t ++ exprNodes v)
  | s@(.cond _ c t none) => .stmt s :: (exprNodes c ++ t.nodes)
  | s@(.cond _ c t (some f)) => .stmt s :: (exprNodes c ++ t.nodes ++ f.nodes)
  | s@(.loop _ c b) => .stmt s :: (exprNodes c ++ b.nodes)
  | s@(.forLoop _ i c st b) =>
    .stmt s :: ((nodesOfOption c).map .expr ++ clauseNodes i ++ clauseNodes st ++ b.nodes)
  | s@(.funcDef _ _ _ _ b) => .stmt s :: b.nodes
  | s@(.leave _) | s@(.code _ _) | s@(.bitfieldDef _ _) | s@(.enumDef _ _) | s@(.require _ _) =>
    [.stmt s]

/-- Everything in a list of statements. -/
def stmtsNodes : List Stmt → List Node
  | [] => []
  | s :: ss => s.nodes ++ stmtsNodes ss

/-- Everything in a block. -/
def Block.nodes : Block → List Node
  | .mk os ss _ => os.flatMap Assign.nodes ++ stmtsNodes ss

end

/-- The place of a node. -/
def Node.span : Node → Span
  | .stmt s => s.span
  | .expr e => e.span

/-- The name of a node's kind. -/
def Node.kindName : Node → Text
  | .stmt s => s.kind.name
  | .expr e => e.kind.name

/-- A node as one line: its kind and place, with a dot in front of expressions. -/
def Node.render (n : Node) : Text :=
  let mark : Text := match n with
    | .stmt _ => ""
    | .expr _ => "."
  mark ++ n.kindName ++ " " ++ Text.ofNat n.span.start ++ "-" ++ Text.ofNat n.span.stop

/-- What is wrong with the place of a node in a file of the given number and length. -/
def Node.spanFault? (file length : Nat) (n : Node) : Option Text :=
  let s := n.span
  if s.file ≠ file then
    some (n.kindName ++ " span file mismatch: got=" ++ Text.ofNat s.file ++ " want="
      ++ Text.ofNat file)
  else if s.stop < s.start then some (n.kindName ++ " span is reversed: " ++ s.render)
  else if length < s.stop then
    some (n.kindName ++ " span end beyond content: " ++ Text.ofNat s.stop ++ " > "
      ++ Text.ofNat length)
  else none

/-- The first fault of a place in a program. -/
def Block.spansFault? (file length : Nat) (b : Block) : Option Text :=
  b.nodes.findSome? (Node.spanFault? file length)

end AisScript
