import AisScript.Typing

/-!
# Other numbers for bindings

Typing tells bindings apart by numbers, and takes the next number that is free.  Which numbers these are
depends on everything that was typed before.  To say that two typed trees are the same but for the numbers,
both are given other numbers.

* `Expr.renumber`, `Block.renumber`   a tree with other numbers
* `Block.renumber_id`                 the numbers that it has
-/

namespace AisScript

/-- A binding with another number. -/
def Binding.renumber (φ : Nat → Nat) (b : Binding) : Binding := { b with id := φ b.id }

/-- An assignment with another number for its binding. -/
def AssignInfo.renumber (φ : Nat → Nat) (i : AssignInfo) : AssignInfo :=
  { i with binding := i.binding.map (Binding.renumber φ) }

mutual

/-- An expression with other numbers for bindings. -/
def Expr.renumber (φ : Nat → Nat) : Expr → Expr
  | .const i v => .const i v
  | .var i n b => .var i n (b.map (Binding.renumber φ))
  | .binary i op l r => .binary i op (l.renumber φ) (r.renumber φ)
  | .unary i op x => .unary i op (x.renumber φ)
  | .call i n ns args t => .call i n ns (renumberList φ args) (t.renumber φ)
  | .member i a b n ns => .member i a (b.renumber φ) n ns
  | .query i k op u x c => .query i k op (renumberOption φ u) (renumberOption φ x) (renumberOption φ c)

/-- Expressions with other numbers for bindings. -/
def renumberList (φ : Nat → Nat) : List Expr → List Expr
  | [] => []
  | e :: es => e.renumber φ :: renumberList φ es

/-- An expression that may be absent. -/
def renumberOption (φ : Nat → Nat) : Option Expr → Option Expr
  | none => none
  | some e => some (e.renumber φ)

/-- The meaning of a call. -/
def Target.renumber (φ : Nat → Nat) : Target → Target
  | .unresolved => .unresolved
  | .intrinsic op => .intrinsic op
  | .constructor layout => .constructor layout
  | .function binds body => .function (renumberAssigns φ binds) (body.renumber φ)

/-- An assignment. -/
def Assign.renumber (φ : Nat → Nat) : Assign → Assign
  | .mk i v => .mk (i.renumber φ) (v.renumber φ)

/-- Assignments. -/
def renumberAssigns (φ : Nat → Nat) : List Assign → List Assign
  | [] => []
  | a :: as => a.renumber φ :: renumberAssigns φ as

/-- A clause that may be absent. -/
def renumberClause (φ : Nat → Nat) : Option Assign → Option Assign
  | none => none
  | some a => some (a.renumber φ)

/-- A statement with other numbers for bindings. -/
def Stmt.renumber (φ : Nat → Nat) : Stmt → Stmt
  | .block b => .block (b.renumber φ)
  | .eval s e => .eval s (e.renumber φ)
  | .assign a => .assign (a.renumber φ)
  | .assignMember s t v => .assignMember s (t.renumber φ) (v.renumber φ)
  | .cond s c t f => .cond s (c.renumber φ) (t.renumber φ) (renumberElse φ f)
  | .loop s c b => .loop s (c.renumber φ) (b.renumber φ)
  | .forLoop s i c st b =>
    .forLoop s (renumberClause φ i) (renumberOption φ c) (renumberClause φ st) (b.renumber φ)
  | .ret s v => .ret s (v.renumber φ)
  | .leave s => .leave s
  | .code s t => .code s t
  | .funcDef s n ns ps b => .funcDef s n ns ps (b.renumber φ)
  | .bitfieldDef s d => .bitfieldDef s d
  | .enumDef s d => .enumDef s d
  | .require s p => .require s p

/-- Statements with other numbers for bindings. -/
def renumberStmts (φ : Nat → Nat) : List Stmt → List Stmt
  | [] => []
  | s :: ss => s.renumber φ :: renumberStmts φ ss

/-- A block with other numbers for bindings. -/
def Block.renumber (φ : Nat → Nat) : Block → Block
  | .mk os ss sp => .mk (renumberAssigns φ os) (renumberStmts φ ss) sp

/-- An else block that may be absent. -/
def renumberElse (φ : Nat → Nat) : Option Block → Option Block
  | none => none
  | some b => some (b.renumber φ)

end

/-! ## The same numbers -/

/-- A binding with the number that it has. -/
theorem renumber_binding_id (b : Binding) : b.renumber id = b := rfl

/-- An assignment with the number that it has. -/
theorem AssignInfo.renumber_id (i : AssignInfo) : i.renumber id = i := by
  obtain ⟨s, n, ns, d, b, binding⟩ := i
  cases binding <;> rfl

mutual

/-- An expression with the numbers that it has. -/
theorem Expr.renumber_id : (e : Expr) → e.renumber id = e
  | .const _ _ => rfl
  | .var _ _ b => by cases b <;> rfl
  | .binary _ _ l r => by rw [Expr.renumber, l.renumber_id, r.renumber_id]
  | .unary _ _ x => by rw [Expr.renumber, x.renumber_id]
  | .call _ _ _ args t => by rw [Expr.renumber, renumberList_id args, t.renumber_id]
  | .member _ _ b _ _ => by rw [Expr.renumber, b.renumber_id]
  | .query _ _ _ u x c => by
    rw [Expr.renumber, renumberOption_id u, renumberOption_id x, renumberOption_id c]

private theorem renumberList_id : (es : List Expr) → renumberList id es = es
  | [] => rfl
  | e :: es => by rw [renumberList, e.renumber_id, renumberList_id es]

private theorem renumberOption_id : (e : Option Expr) → renumberOption id e = e
  | none => rfl
  | some e => by rw [renumberOption, e.renumber_id]

private theorem Target.renumber_id : (t : Target) → t.renumber id = t
  | .unresolved | .intrinsic _ | .constructor _ => rfl
  | .function binds body => by rw [Target.renumber, renumberAssigns_id binds, body.renumber_id]

private theorem Assign.renumber_id : (a : Assign) → a.renumber id = a
  | .mk i v => by rw [Assign.renumber, i.renumber_id, v.renumber_id]

private theorem renumberAssigns_id : (as : List Assign) → renumberAssigns id as = as
  | [] => rfl
  | a :: as => by rw [renumberAssigns, a.renumber_id, renumberAssigns_id as]

private theorem renumberClause_id : (a : Option Assign) → renumberClause id a = a
  | none => rfl
  | some a => by rw [renumberClause, a.renumber_id]

private theorem Stmt.renumber_id : (s : Stmt) → s.renumber id = s
  | .block b => by rw [Stmt.renumber, b.renumber_id]
  | .eval _ e => by rw [Stmt.renumber, e.renumber_id]
  | .assign a => by rw [Stmt.renumber, a.renumber_id]
  | .assignMember _ t v => by rw [Stmt.renumber, t.renumber_id, v.renumber_id]
  | .cond _ c t f => by rw [Stmt.renumber, c.renumber_id, t.renumber_id, renumberElse_id f]
  | .loop _ c b => by rw [Stmt.renumber, c.renumber_id, b.renumber_id]
  | .forLoop _ i c st b => by
    rw [Stmt.renumber, renumberClause_id i, renumberOption_id c, renumberClause_id st, b.renumber_id]
  | .ret _ v => by rw [Stmt.renumber, v.renumber_id]
  | .funcDef _ _ _ _ b => by rw [Stmt.renumber, b.renumber_id]
  | .leave _ | .code _ _ | .bitfieldDef _ _ | .enumDef _ _ | .require _ _ => rfl

private theorem renumberStmts_id : (ss : List Stmt) → renumberStmts id ss = ss
  | [] => rfl
  | s :: ss => by rw [renumberStmts, s.renumber_id, renumberStmts_id ss]

/-- A block with the numbers that it has. -/
theorem Block.renumber_id : (b : Block) → b.renumber id = b
  | .mk os ss _ => by rw [Block.renumber, renumberAssigns_id os, renumberStmts_id ss]

private theorem renumberElse_id : (b : Option Block) → renumberElse id b = b
  | none => rfl
  | some b => by rw [renumberElse, b.renumber_id]

end

/-! ## What does not depend on numbers -/

section Same

variable (φ : Nat → Nat)

/-- Other numbers leave an expression in its place, with its type. -/
private theorem Expr.info_renumber (e : Expr) : (e.renumber φ).info = e.info := by
  cases e <;> rfl

variable {φ} {e e' : Expr}

/-- Bindings that are the same but for numbers are of the same type. -/
theorem Binding.ty_of_renumber {b b' : Binding} (h : b.renumber φ = b'.renumber φ) : b.ty = b'.ty := by
  have hty := congrArg Binding.ty h
  exact hty

/-- Bindings that are the same but for numbers may change or not. -/
theorem Binding.immutable_of_renumber {b b' : Binding} (h : b.renumber φ = b'.renumber φ) :
    b.immutable = b'.immutable := by
  have himmutable := congrArg Binding.immutable h
  exact himmutable

/-- Expressions that are the same but for numbers have the same place. -/
theorem Expr.span_of_renumber (h : e.renumber φ = e'.renumber φ) : e.span = e'.span := by
  rw [Expr.span, ← e.info_renumber φ, h, e'.info_renumber φ, Expr.span]

/-- Other numbers leave the types of expressions as they are. -/
private theorem ty?_comp_renumber : Expr.ty? ∘ Expr.renumber φ = Expr.ty? :=
  funext fun e => congrArg ExprInfo.ty (e.info_renumber φ)

/-- Expressions that are the same but for numbers have the same type. -/
theorem Expr.ty?_of_renumber (h : e.renumber φ = e'.renumber φ) : e.ty? = e'.ty? := by
  rw [Expr.ty?, ← e.info_renumber φ, h, e'.info_renumber φ, Expr.ty?]

/-- Expressions that are the same but for numbers are called the same. -/
theorem Expr.describe_of_renumber (h : e.renumber φ = e'.renumber φ) : e.describe = e'.describe := by
  have hdescribe : ∀ x : Expr, (x.renumber φ).describe = x.describe := fun x => by cases x <;> rfl
  rw [← hdescribe, h, hdescribe]

private theorem renumberList_eq_map (es : List Expr) : renumberList φ es = es.map (Expr.renumber φ) := by
  induction es with
  | nil => rfl
  | cons e es ih => rw [renumberList, ih, List.map_cons]

private theorem renumberStmts_eq_map (ss : List Stmt) : renumberStmts φ ss = ss.map (Stmt.renumber φ) := by
  induction ss with
  | nil => rfl
  | cons s ss ih => rw [renumberStmts, ih, List.map_cons]

/-- Argument lists that are the same but for numbers are of one length. -/
theorem length_of_renumberList {es es' : List Expr} (h : renumberList φ es = renumberList φ es') :
    es.length = es'.length := by
  have hlength := congrArg List.length h
  rwa [renumberList_eq_map, renumberList_eq_map, List.length_map, List.length_map] at hlength

/-- Argument lists that are the same but for numbers are of the same types. -/
theorem tys_of_renumberList {es es' : List Expr} (h : renumberList φ es = renumberList φ es') :
    es.map Expr.ty? = es'.map Expr.ty? := by
  have h := congrArg (List.map Expr.ty?) h
  rwa [renumberList_eq_map, renumberList_eq_map, List.map_map, List.map_map, ty?_comp_renumber] at h

/-- Other numbers for a block are other numbers for the value that it gives back. -/
private theorem Block.returned?_renumber (b : Block) :
    (b.renumber φ).returned? = b.returned?.map (Expr.renumber φ) := by
  obtain ⟨os, ss, sp⟩ := b
  simp only [Block.returned?, Block.renumber, Block.stmts, renumberStmts_eq_map, List.getLast?_map]
  cases ss.getLast? with
  | none => rfl
  | some s => cases s <;> rfl

/-- Blocks that are the same but for numbers give back values of one type. -/
theorem Block.returned_of_renumber {b b' : Block} (h : b.renumber φ = b'.renumber φ) :
    b.returned?.map Expr.ty? = b'.returned?.map Expr.ty? := by
  have h := congrArg (fun x : Block => x.returned?.map Expr.ty?) h
  simpa only [Block.returned?_renumber, Option.map_map, ty?_comp_renumber] using h

end Same

end AisScript
