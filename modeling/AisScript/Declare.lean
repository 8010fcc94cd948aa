import AisScript.Scope
import AisScript.Host
import AisScript.Fault

/-!
# Declarations

An assignment declares its variable when no visible binding has the name.  This pass walks a program
with the names visible at each point and marks the assignments that declare.  Definitions of
functions, bitfields and enumerations bind their names without being assignments; parameters are
bound in the frame of the function's body.

* `Block.declare`   the program with its declaring assignments marked
-/

namespace AisScript

/-- A tree with its declarations marked, the names visible behind it, and the fault that stopped the
pass, if one did.  Behind a fault the tree is left as it was. -/
structure Declared (α : Type) where
  tree : α
  names : Scope Unit
  fault : Option Fault := none

/-- Marks an assignment and binds its name if it declares. -/
def Assign.declare (names : Scope Unit) : Assign → Assign × Scope Unit
  | .mk i v =>
    if i.declares || (names.lookup i.name).isNone then
      (.mk { i with declares := true } v, names.define i.name ())
    else (.mk i v, names)

/-- Marks several assignments in order. -/
def declareAssigns (names : Scope Unit) : List Assign → List Assign × Scope Unit
  | [] => ([], names)
  | a :: as =>
    let (a, names) := a.declare names
    let (as, names) := declareAssigns names as
    (a :: as, names)

/-- Marks a clause that may be absent. -/
def declareClause (names : Scope Unit) : Option Assign → Option Assign × Scope Unit
  | none => (none, names)
  | some a =>
    let (a, names) := a.declare names
    (some a, names)

mutual

/-- Marks the declarations of a statement. -/
def Stmt.declare (names : Scope Unit) : Stmt → Declared Stmt
  | .block b =>
    let r := b.declareIn names.push
    { tree := .block r.tree, names, fault := r.fault }
  | .assign a =>
    let (a, names) := a.declare names
    { tree := .assign a, names }
  | .cond s c t f =>
    let r := t.declareIn names.push
    match r.fault with
    | some fault => { tree := .cond s c r.tree f, names, fault := some fault }
    | none =>
      let q := declareOption names f
      { tree := .cond s c r.tree q.tree, names, fault := q.fault }
  | .loop s c b =>
    let r := b.declareIn names.push
    { tree := .loop s c r.tree, names, fault := r.fault }
  | .forLoop s i c st b =>
    let (i, header) := declareClause names.push i
    let (st, header) := declareClause header st
    let r := b.declareIn header.push
    { tree := .forLoop s i c st r.tree, names, fault := r.fault }
  | .funcDef s n ns ps b =>
    let names := names.define n ()
    let r := b.declareIn (ps.foldl (fun sc p => sc.define p.name ()) names.push)
    { tree := .funcDef s n ns ps r.tree, names, fault := r.fault }
  | .bitfieldDef s d => { tree := .bitfieldDef s d, names := names.define d.name () }
  | .enumDef s d =>
    { tree := .enumDef s d
      names := d.members.foldl (fun sc m => sc.define m.name ()) (names.define d.name ()) }
  | .require s p => { tree := .require s p, names, fault := some .requireInDeclarations }
  | .eval s e => { tree := .eval s e, names }
  | .assignMember s t v => { tree := .assignMember s t v, names }
  | .ret s v => { tree := .ret s v, names }
  | .leave s => { tree := .leave s, names }
  | .code s t => { tree := .code s t, names }

/-- Marks the declarations of statements in order. -/
def declareStmts (names : Scope Unit) : List Stmt → Declared (List Stmt)
  | [] => { tree := [], names }
  | s :: ss =>
    let r := s.declare names
    match r.fault with
    | some fault => { tree := r.tree :: ss, names := r.names, fault := some fault }
    | none =>
      let q := declareStmts r.names ss
      { q with tree := r.tree :: q.tree }

/-- Marks the declarations of a block in a frame that is already open. -/
def Block.declareIn (names : Scope Unit) : Block → Declared Block
  | .mk os ss sp =>
    let (os, names) := declareAssigns names os
    let r := declareStmts names ss
    { tree := .mk os r.tree sp, names := r.names, fault := r.fault }

/-- Marks the declarations of a block that may be absent, in a frame of its own. -/
def declareOption (names : Scope Unit) : Option Block → Declared (Option Block)
  | none => { tree := none, names }
  | some b =>
    let r := b.declareIn names.push
    { tree := some r.tree, names, fault := r.fault }

end

/-- The names that are taken before the first statement. -/
def Host.nameScope (h : Host) : Scope Unit := h.names.foldl (fun sc n => sc.define n ()) {}

/-- Marks every assignment of a program that declares its variable. -/
def Block.declare (h : Host) (b : Block) : Block × Option Fault :=
  let r := b.declareIn h.nameScope.push
  (r.tree, r.fault)

end AisScript
