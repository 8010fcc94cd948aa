import AisScript.Scope
import AisScript.Fault

/-!
# Substitution of constants

The generated language has neither enumerations nor string variables.  Both are replaced by
constants: references to enumeration members by their values, and references to string variables by
the literals assigned to them, whose assignments disappear.  A declaration of the same name in an
inner scope hides the constant.

* `Block.substituteEnums`     the program without references to enumeration members
* `Block.substituteStrings`   the program without string variables
-/

namespace AisScript

/-- What names stand for: a constant, or a variable that hides an outer constant. -/
abbrev Constants := Scope (Option Expr)

/-- What becomes of an assignment whose value was substituted in: whether it stays, and the constants
behind it. -/
abbrev AssignRule := Constants → Assign → Except Fault (Bool × Constants)

mutual

/-- Replaces the constants in an expression. -/
def Expr.substitute (cs : Constants) : Expr → Expr
  | .const i v => .const i v
  | .var i n b =>
    match cs.lookup n with
    | some (some v) => v.withSpan i.span
    | _ => .var i n b
  | .binary i op l r => .binary i op (l.substitute cs) (r.substitute cs)
  | .unary i op x => .unary i op (x.substitute cs)
  | .call i n ns args t => .call i n ns (substituteList cs args) t
  | .member i a b n ns => .member i a (b.substitute cs) n ns
  | .query i k op u x c =>
    .query i k op (substituteOption cs u) (substituteOption cs x) (substituteOption cs c)

/-- Replaces the constants in several expressions. -/
def substituteList (cs : Constants) : List Expr → List Expr
  | [] => []
  | e :: es => e.substitute cs :: substituteList cs es

/-- Replaces the constants in an expression that may be absent. -/
def substituteOption (cs : Constants) : Option Expr → Option Expr
  | none => none
  | some e => some (e.substitute cs)

end

/-- Substitutes in an assignment: nothing is left of it if its rule drops it. -/
def Assign.substitute (rule : AssignRule) (cs : Constants) :
    Assign → Except Fault (Option Assign × Constants)
  | .mk i v => do
    let a := Assign.mk i (v.substitute cs)
    let (stays, cs) ← rule cs a
    pure (if stays then some a else none, cs)

/-- Substitutes in assignments in order. -/
def substituteAssigns (rule : AssignRule) (cs : Constants) :
    List Assign → Except Fault (List Assign × Constants)
  | [] => pure ([], cs)
  | a :: as => do
    let (a, cs) ← a.substitute rule cs
    let (as, cs) ← substituteAssigns rule cs as
    pure (a.toList ++ as, cs)

/-- Substitutes in a clause that may be absent. -/
def substituteClause (rule : AssignRule) (cs : Constants) :
    Option Assign → Except Fault (Option Assign × Constants)
  | none => pure (none, cs)
  | some a => a.substitute rule cs

/-- The constants behind a closed block. -/
def Constants.closed (cs : Constants) : Constants := cs.pop?.getD cs

/-- Binds the members of an enumeration to their values. -/
def Constants.bindMembers (cs : Constants) (d : Enumeration) : Constants :=
  d.members.foldl (fun cs m => cs.define m.name (some (.literal (.int m.value) d.site))) cs

mutual

/-- Substitutes in a statement: the statements that take its place, and the constants behind it. -/
def Stmt.substitute (rule : AssignRule) (cs : Constants) :
    Stmt → Except Fault (List Stmt × Constants)
  | .block b => do
    let (b, cs) ← b.substituteIn rule cs
    pure ([.block b], cs)
  | .assign a => do
    let (a, cs) ← a.substitute rule cs
    pure (a.toList.map .assign, cs)
  | .eval s e => pure ([.eval s (e.substitute cs)], cs)
  | .assignMember s t v => pure ([.assignMember s (t.substitute cs) (v.substitute cs)], cs)
  | .cond s c t f => do
    let c := c.substitute cs
    let (t, cs) ← t.substituteIn rule cs
    let (f, cs) ← substituteElse rule cs f
    pure ([.cond s c t f], cs)
  | .loop s c b => do
    let c := c.substitute cs
    let (b, cs) ← b.substituteIn rule cs
    pure ([.loop s c b], cs)
  | .forLoop s i c st b => do
    let (i, cs) ← substituteClause rule cs.push i
    let c := substituteOption cs c
    let (st, cs) ← substituteClause rule cs st
    let (b, cs) ← b.substituteIn rule cs
    pure ([.forLoop s i c st b], cs.closed)
  | .enumDef s d => pure ([.enumDef s d], cs.bindMembers d)
  | .leave s => pure ([.leave s], cs)
  | .code s t => pure ([.code s t], cs)
  | .bitfieldDef s d => pure ([.bitfieldDef s d], cs)
  | .ret _ _ => throw (.survivedExpansion .ret)
  | .funcDef _ _ _ _ _ => throw (.survivedExpansion .funcDef)
  | .require _ _ => throw .requireInSubstitution

/-- Substitutes in statements in order. -/
def substituteStmts (rule : AssignRule) (cs : Constants) :
    List Stmt → Except Fault (List Stmt × Constants)
  | [] => pure ([], cs)
  | s :: ss => do
    let (s, cs) ← s.substitute rule cs
    let (ss, cs) ← substituteStmts rule cs ss
    pure (s ++ ss, cs)

/-- Substitutes in a block in a frame of its own. -/
def Block.substituteIn (rule : AssignRule) (cs : Constants) :
    Block → Except Fault (Block × Constants)
  | .mk os ss sp => do
    let (os, cs) ← substituteAssigns rule cs.push os
    let (ss, cs) ← substituteStmts rule cs ss
    pure (.mk os ss sp, cs.closed)

/-- Substitutes in an else block that may be absent. -/
def substituteElse (rule : AssignRule) (cs : Constants) :
    Option Block → Except Fault (Option Block × Constants)
  | none => pure (none, cs)
  | some b => do
    let (b, cs) ← b.substituteIn rule cs
    pure (some b, cs)

end

/-- Every assignment stays, and a declaration hides constants of its name. -/
def keepAssign : AssignRule := fun cs a =>
  .ok (true, if a.info.declares then cs.define a.info.name none else cs)

/-- Assignments of strings go: a declaration makes the name a constant, and a plain assignment, which
can only be the one of a temporary, changes the constant where it was made. -/
def absorbString : AssignRule := fun cs a => do
  let t ← a.value.knownTy
  if t = .string then
    let value := some a.value
    let cs := if a.info.declares then cs.define a.info.name value
      else (cs.rebind? a.info.name value).getD (cs.define a.info.name value)
    pure (false, cs)
  else pure (true, if a.info.declares then cs.define a.info.name none else cs)

/-- Replaces references to enumeration members by their values. -/
def Block.substituteEnums (b : Block) : Except Fault Block := do
  let (b, _) ← b.substituteIn keepAssign {}
  pure b

/-- Replaces references to string variables by literals and drops their assignments. -/
def Block.substituteStrings (b : Block) : Except Fault Block := do
  let (b, _) ← b.substituteIn absorbString {}
  pure b

end AisScript
