import AisScript.Tree.Walk

/-!
# Hygiene

The body of a called function is moved to the place of the call.  There, a declaration in the body
hides every binding of the same name for everything inside the body, also for parts that meant
another binding: an argument that the caller wrote, or a variable that a nested call reads.  Where
a name is used for a binding of the body and for a foreign one, the body's declarations of it and
all their uses get fresh names.  Declarations nobody contests keep theirs.

* `Block.freshen`   renames the contested declarations of a body
-/

namespace AisScript

/-! ## Renaming bindings -/

/-- New names for some bindings, by number; the first entry for a number counts. -/
abbrev Renaming := List (Nat × Text)

/-- The name of something under a renaming: its binding's new name, or the old one. -/
def Renaming.apply (r : Renaming) (binding : Option Binding) (name : Text) : Text :=
  match binding with
  | some b => (r.lookup b.id).getD name
  | none => name

mutual

/-- Renames the variables of an expression. -/
def Expr.rename (r : Renaming) : Expr → Expr
  | .const i v => .const i v
  | .var i n b => .var i (r.apply b n) b
  | .binary i op x y => .binary i op (x.rename r) (y.rename r)
  | .unary i op x => .unary i op (x.rename r)
  | .call i n ns args t => .call i n ns (renameList r args) t
  | .member i a b n ns => .member i a (b.rename r) n ns
  | .query i k op u x c => .query i k op (renameOption r u) (renameOption r x) (renameOption r c)

/-- Renames the variables of several expressions. -/
def renameList (r : Renaming) : List Expr → List Expr
  | [] => []
  | e :: es => e.rename r :: renameList r es

/-- Renames the variables of an expression that may be absent. -/
def renameOption (r : Renaming) : Option Expr → Option Expr
  | none => none
  | some e => some (e.rename r)

end

/-- Renames an assignment's variable and those of its value. -/
def Assign.rename (r : Renaming) : Assign → Assign
  | .mk i v => .mk { i with name := r.apply i.binding i.name } (v.rename r)

mutual

/-- Renames the variables of a statement. -/
def Stmt.rename (r : Renaming) : Stmt → Stmt
  | .block b => .block (b.rename r)
  | .eval s e => .eval s (e.rename r)
  | .assign a => .assign (a.rename r)
  | .assignMember s t v => .assignMember s (t.rename r) (v.rename r)
  | .cond s c t f => .cond s (c.rename r) (t.rename r) (renameElse r f)
  | .loop s c b => .loop s (c.rename r) (b.rename r)
  | .forLoop s i c st b =>
    .forLoop s (i.map (·.rename r)) (renameOption r c) (st.map (·.rename r)) (b.rename r)
  | .ret s v => .ret s (v.rename r)
  | .funcDef s n ns ps b => .funcDef s n ns ps (b.rename r)
  | .leave s => .leave s
  | .code s t => .code s t
  | .bitfieldDef s d => .bitfieldDef s d
  | .enumDef s d => .enumDef s d
  | .require s p => .require s p

/-- Renames the variables of statements. -/
def renameStmts (r : Renaming) : List Stmt → List Stmt
  | [] => []
  | s :: ss => s.rename r :: renameStmts r ss

/-- Renames the variables of a block. -/
def Block.rename (r : Renaming) : Block → Block
  | .mk os ss sp => .mk (os.map (·.rename r)) (renameStmts r ss) sp

/-- Renames the variables of an else block that may be absent. -/
def renameElse (r : Renaming) : Option Block → Option Block
  | none => none
  | some b => some (b.rename r)

end

/-! ## Contested names -/

/-- The name and the number of the binding that a node uses, if it uses one. -/
def Node.use? : Node → Option (Text × Nat)
  | .stmt (.assign a) => a.info.binding.map fun b => (a.info.name, b.id)
  | .expr (.var _ n b) => b.map fun b => (n, b.id)
  | _ => none

/-- The number of the binding that a node declares, if it declares one. -/
def Node.declared? : Node → Option Nat
  | .stmt (.assign a) => if a.info.declares then a.info.binding.map (·.id) else none
  | _ => none

/-- The bindings used under a name, in the order of their first use. -/
def usedAs (uses : List (Text × Nat)) (name : Text) : List Nat :=
  ((uses.filter (·.1 == name)).map (·.2)).eraseDups

/-- The bindings to rename, with their old names: those the body declares under a name that is also
used for a binding it does not declare. -/
def contested (nodes : List Node) : List (Nat × Text) :=
  let uses := nodes.filterMap Node.use?
  let declared := nodes.filterMap Node.declared?
  let names := (uses.map (·.1)).eraseDups
  names.flatMap fun name =>
    let ids := usedAs uses name
    if ids.all declared.contains then []
    else (ids.filter declared.contains).map fun id => (id, name)

/-- A name no script can contest, made from a name and a number. -/
def freshName (name : Text) (number : Nat) : Text := "__" ++ name ++ "_" ++ Text.ofNat number

/-- Fresh names for bindings, numbered from `number` on.  A binding listed twice gets its last one. -/
def freshNames (number : Nat) : List (Nat × Text) → Renaming
  | [] => []
  | (id, name) :: rest => freshNames (number + 1) rest ++ [(id, freshName name number)]

/-- Renames the contested declarations of a body.  `number` is the first free number for fresh
names; the next free one is returned with the body. -/
def Block.freshen (number : Nat) (b : Block) : Block × Nat :=
  let cs := contested b.nodes
  if cs.isEmpty then (b, number) else (b.rename (freshNames number cs), number + cs.length)

end AisScript
