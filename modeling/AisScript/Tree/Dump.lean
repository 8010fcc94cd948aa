import AisScript.Tree

/-!
# Outlines of trees

A tree as indented text, one node on a line and two blanks for each level.  Types are shown where
they are known.

* `Block.outline`   the lines of a program, each with its level
* `Block.dump`      the outline of a program as text
-/

namespace AisScript

/-- One line of an outline. -/
structure OutlineLine where
  level : Nat
  text : Text
deriving DecidableEq, Repr

/-- The lines of an outline, from top to bottom. -/
abbrev Outline := List OutlineLine

/-- The line as text. -/
def OutlineLine.render (l : OutlineLine) : Text := Text.blanks (2 * l.level) ++ l.text ++ "\n"

/-- An outline of one line. -/
def outlineLine (level : Nat) (t : Text) : Outline := [⟨level, t⟩]

/-- A literal as written in outlines. -/
def Literal.render : Literal → Text
  | .int v => Text.ofInt64 v
  | .float v => v.general
  | .string t => Text.quote t

/-- The type behind a node, if it is known. -/
def ExprInfo.suffix (i : ExprInfo) : Text :=
  match i.ty with
  | some t => " : " ++ t.render
  | none => ""

mutual

/-- The outline of an expression. -/
def Expr.outline (level : Nat) : Expr → Outline
  | .const i v => outlineLine level ("Const " ++ v.render ++ i.suffix)
  | .var i n _ => outlineLine level ("VarRef " ++ n ++ i.suffix)
  | .binary i op l r =>
    outlineLine level ("Binary " ++ op.symbol ++ i.suffix) ++ l.outline (level + 1)
      ++ r.outline (level + 1)
  | .unary i op x => outlineLine level ("Unary " ++ op.symbol ++ i.suffix) ++ x.outline (level + 1)
  | .call i n _ args _ => outlineLine level ("Call " ++ n ++ i.suffix) ++ outlineList (level + 1) args
  | .member i a b n _ =>
    outlineLine level (a.kind.name ++ " ." ++ n ++ i.suffix) ++ b.outline (level + 1)
  | .query i k op u x c =>
    outlineLine level ("Query " ++ k ++ " " ++ op ++ i.suffix) ++ outlineOption (level + 1) u
      ++ outlineOption (level + 1) x ++ outlineOption (level + 1) c

/-- The outlines of several expressions. -/
def outlineList (level : Nat) : List Expr → Outline
  | [] => []
  | e :: es => e.outline level ++ outlineList level es

/-- The outline of an expression that may be absent. -/
def outlineOption (level : Nat) : Option Expr → Outline
  | none => []
  | some e => e.outline level

end

/-- The outline of an assignment. -/
def Assign.outline (level : Nat) (a : Assign) : Outline :=
  let declares : Text := if a.info.declares then " declare" else ""
  let binds : Text := if a.info.binds then " bind" else ""
  outlineLine level ("Assign " ++ a.info.name ++ declares ++ binds) ++ a.value.outline (level + 1)

/-- The outline of a clause that may be absent. -/
def clauseOutline (level : Nat) : Option Assign → Outline
  | none => []
  | some a => a.outline level

/-- The outline of an override: its mark, and the assignment one level below. -/
def overrideOutline (level : Nat) (a : Assign) : Outline :=
  outlineLine level "override" ++ a.outline (level + 1)

mutual

/-- The outline of a statement. -/
def Stmt.outline (level : Nat) : Stmt → Outline
  | .block b => b.outline "Block" level
  | .eval _ e => outlineLine level "ExprStmt" ++ e.outline (level + 1)
  | .assign a => a.outline level
  | .assignMember _ t v =>
    outlineLine level "BitfieldAssign" ++ t.outline (level + 1) ++ v.outline (level + 1)
  | .cond _ c t none =>
    outlineLine level "If" ++ c.outline (level + 1) ++ t.outline "Then" (level + 1)
  | .cond _ c t (some f) =>
    outlineLine level "If" ++ c.outline (level + 1) ++ t.outline "Then" (level + 1)
      ++ f.outline "Else" (level + 1)
  | .loop _ c b => outlineLine level "While" ++ c.outline (level + 1) ++ b.outline "Body" (level + 1)
  | .forLoop _ i c s b =>
    outlineLine level "For" ++ clauseOutline (level + 1) i ++ outlineOption (level + 1) c
      ++ clauseOutline (level + 1) s ++ b.outline "Body" (level + 1)
  | .ret _ e => outlineLine level "Return" ++ e.outline (level + 1)
  | .leave _ => outlineLine level "Break"
  | .code _ t => outlineLine level ("Code " ++ Text.quote t)
  | .funcDef _ n _ ps b =>
    outlineLine level ("FuncDef " ++ n ++ "(" ++ Text.join ", " (ps.map (·.name)) ++ ")")
      ++ b.outline "Body" (level + 1)
  | .bitfieldDef _ d =>
    outlineLine level ("BitfieldDef " ++ d.name ++ " "
      ++ Text.join " " (d.members.map fun m => m.name ++ ":" ++ Text.ofNat m.length))
  | .enumDef _ d =>
    outlineLine level ("EnumDef " ++ d.name ++ " "
      ++ Text.join " " (d.members.map fun m => m.name ++ "=" ++ Text.ofInt64 m.value))
  | .require _ p => outlineLine level ("Require " ++ Text.quote p)

/-- The outlines of several statements. -/
def stmtsOutline (level : Nat) : List Stmt → Outline
  | [] => []
  | s :: ss => s.outline level ++ stmtsOutline level ss

/-- The outline of a block under a label. -/
def Block.outline (label : Text) (level : Nat) : Block → Outline
  | .mk os ss _ =>
    outlineLine level label ++ os.flatMap (overrideOutline (level + 1)) ++ stmtsOutline (level + 1) ss

end

/-- The outline of a program as text. -/
def Block.dump (b : Block) : Text := (b.outline "Program" 0).flatMap OutlineLine.render

end AisScript
