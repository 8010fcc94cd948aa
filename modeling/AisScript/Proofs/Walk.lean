import AisScript.Expand

/-!
# Nodes of renamed and joined trees

The walk over a tree goes through joined statements part by part, and a renaming changes each node
on its own without touching the order of the walk.

* `stmtsNodes_append`   the nodes of joined statements
* `Expr.nodes_rename`, `Block.nodes_rename`   the nodes of a renamed tree
* `Expr.ty?_rename`     a renaming keeps types
* `Block.rename_nil`    an empty renaming changes nothing
-/

namespace AisScript

/-- The nodes of joined statements. -/
theorem stmtsNodes_append (ss ts : List Stmt) :
    stmtsNodes (ss ++ ts) = stmtsNodes ss ++ stmtsNodes ts := by
  induction ss with
  | nil => rfl
  | cons s ss ih => rw [List.cons_append, stmtsNodes, stmtsNodes, ih, List.append_assoc]

/-- The nodes of a list with one statement. -/
@[simp] theorem stmtsNodes_singleton (s : Stmt) : stmtsNodes [s] = s.nodes := by
  rw [stmtsNodes, stmtsNodes, List.append_nil]

/-- A statement's own nodes are among those of a list it belongs to. -/
theorem nodes_subset_stmtsNodes {s : Stmt} {ss : List Stmt} (h : s ∈ ss) : s.nodes ⊆ stmtsNodes ss := by
  induction ss with
  | nil => exact nomatch h
  | cons t ss ih =>
    intro x hx
    rw [stmtsNodes, List.mem_append]
    rcases List.mem_cons.1 h with rfl | h
    · exact .inl hx
    · exact .inr (ih h hx)

/-! ## Renaming -/

/-- A renaming on a node. -/
def Node.rename (r : Renaming) : Node → Node
  | .expr e => .expr (e.rename r)
  | .stmt s => .stmt (s.rename r)

/-- A renaming keeps places and types. -/
@[simp] theorem Expr.info_rename (r : Renaming) (e : Expr) : (e.rename r).info = e.info := by
  cases e <;> rfl

/-- A renaming keeps types. -/
@[simp] theorem Expr.ty?_rename (r : Renaming) (e : Expr) : (e.rename r).ty? = e.ty? := by
  rw [Expr.ty?, Expr.info_rename, Expr.ty?]

/-- A renaming changes each expression of a list on its own. -/
theorem renameList_eq_map (r : Renaming) (es : List Expr) :
    renameList r es = es.map (·.rename r) := by
  induction es with
  | nil => rfl
  | cons e es ih => rw [renameList, ih, List.map_cons]

/-- A renaming changes each statement of a list on its own. -/
theorem renameStmts_eq_map (r : Renaming) (ss : List Stmt) :
    renameStmts r ss = ss.map (·.rename r) := by
  induction ss with
  | nil => rfl
  | cons s ss ih => rw [renameStmts, ih, List.map_cons]

mutual

/-- The nodes of a renamed expression. -/
theorem Expr.nodes_rename (r : Renaming) : (e : Expr) →
    (e.rename r).nodes = e.nodes.map (·.rename r)
  | .const _ _ | .var _ _ _ => rfl
  | .binary _ _ x y => by
    simp only [Expr.rename, Expr.nodes, Expr.nodes_rename r x, Expr.nodes_rename r y, List.map_cons,
      List.map_append]
  | .unary _ _ x => by simp only [Expr.rename, Expr.nodes, Expr.nodes_rename r x, List.map_cons]
  | .call _ _ _ args _ => by
    simp only [Expr.rename, Expr.nodes, nodesOfList_rename r args, List.map_cons]
  | .member _ _ b _ _ => by simp only [Expr.rename, Expr.nodes, Expr.nodes_rename r b, List.map_cons]
  | .query _ _ _ u x c => by
    simp only [Expr.rename, Expr.nodes, nodesOfOption_rename r u, nodesOfOption_rename r x,
      nodesOfOption_rename r c, List.map_cons, List.map_append]

/-- The nodes of renamed expressions. -/
private theorem nodesOfList_rename (r : Renaming) : (es : List Expr) →
    nodesOfList (renameList r es) = (nodesOfList es).map (·.rename r)
  | [] => rfl
  | e :: es => by
    simp only [renameList, nodesOfList, Expr.nodes_rename r e, nodesOfList_rename r es,
      List.map_append]

/-- The nodes of a renamed expression that may be absent. -/
private theorem nodesOfOption_rename (r : Renaming) : (e : Option Expr) →
    nodesOfOption (renameOption r e) = (nodesOfOption e).map (·.rename r)
  | none => rfl
  | some e => Expr.nodes_rename r e

end

/-- The nodes of a renamed expression, as nodes of a program. -/
theorem exprNodes_rename (r : Renaming) (e : Expr) :
    exprNodes (e.rename r) = (exprNodes e).map (·.rename r) := by
  rw [exprNodes, Expr.nodes_rename, exprNodes, List.map_map, List.map_map]
  rfl

/-- The nodes of a renamed assignment. -/
theorem Assign.nodes_rename (r : Renaming) (a : Assign) :
    (a.rename r).nodes = a.nodes.map (·.rename r) := by
  obtain ⟨i, v⟩ := a
  rw [Assign.nodes, Assign.nodes, List.map_cons, ← exprNodes_rename]
  rfl

/-- The nodes of a renamed clause. -/
theorem clauseNodes_rename (r : Renaming) (a : Option Assign) :
    clauseNodes (a.map (·.rename r)) = (clauseNodes a).map (·.rename r) := by
  cases a with
  | none => rfl
  | some a => exact a.nodes_rename r

/-- The nodes of renamed overrides. -/
theorem flatMap_nodes_rename (r : Renaming) (os : List Assign) :
    (os.map (·.rename r)).flatMap Assign.nodes = (os.flatMap Assign.nodes).map (·.rename r) := by
  induction os with
  | nil => rfl
  | cons a os ih =>
    simp only [List.map_cons, List.flatMap_cons, Assign.nodes_rename, ih, List.map_append]

/-- The nodes of the renamed test of a loop header. -/
theorem testNodes_rename (r : Renaming) (c : Option Expr) :
    (nodesOfOption (renameOption r c)).map Node.expr
      = ((nodesOfOption c).map Node.expr).map (·.rename r) := by
  rw [nodesOfOption_rename, List.map_map, List.map_map]
  rfl

mutual

/-- The nodes of a renamed statement. -/
theorem Stmt.nodes_rename (r : Renaming) : (s : Stmt) →
    (s.rename r).nodes = s.nodes.map (·.rename r)
  -- One case for each form of statement; a renaming goes through node by node.
  | .block b => by simp only [Stmt.rename, Stmt.nodes, Block.nodes_rename r b, List.map_cons]; rfl
  | .eval _ e => by simp only [Stmt.rename, Stmt.nodes, exprNodes_rename, List.map_cons]; rfl
  | .assign a => a.nodes_rename r
  | .assignMember _ t v => by
    simp only [Stmt.rename, Stmt.nodes, exprNodes_rename, List.map_cons, List.map_append]
    rfl
  -- A condition without a second branch has one block less.
  | .cond _ c t none => by
    simp only [Stmt.rename, renameElse, Stmt.nodes, exprNodes_rename, Block.nodes_rename r t,
      List.map_cons, List.map_append]
    rfl
  | .cond _ c t (some f) => by
    simp only [Stmt.rename, renameElse, Stmt.nodes, exprNodes_rename, Block.nodes_rename r t,
      Block.nodes_rename r f, List.map_cons, List.map_append]
    rfl
  | .loop _ c b => by
    simp only [Stmt.rename, Stmt.nodes, exprNodes_rename, Block.nodes_rename r b, List.map_cons,
      List.map_append]
    rfl
  | .forLoop _ i c st b => by
    simp only [Stmt.rename, Stmt.nodes, testNodes_rename, clauseNodes_rename, Block.nodes_rename r b,
      List.map_cons, List.map_append]
    rfl
  | .ret _ v => by simp only [Stmt.rename, Stmt.nodes, exprNodes_rename, List.map_cons]; rfl
  | .funcDef _ _ _ _ b => by simp only [Stmt.rename, Stmt.nodes, Block.nodes_rename r b, List.map_cons]; rfl
  -- These hold no names that a renaming changes.
  | .leave _ | .code _ _ | .bitfieldDef _ _ | .enumDef _ _ | .require _ _ => rfl

/-- The nodes of renamed statements. -/
theorem stmtsNodes_rename (r : Renaming) : (ss : List Stmt) →
    stmtsNodes (renameStmts r ss) = (stmtsNodes ss).map (·.rename r)
  | [] => rfl
  | s :: ss => by
    simp only [renameStmts, stmtsNodes, Stmt.nodes_rename r s, stmtsNodes_rename r ss, List.map_append]

/-- The nodes of a renamed block. -/
theorem Block.nodes_rename (r : Renaming) : (b : Block) →
    (b.rename r).nodes = b.nodes.map (·.rename r)
  | .mk os ss _ => by
    simp only [Block.rename, Block.nodes, flatMap_nodes_rename, stmtsNodes_rename r ss, List.map_append]

end

/-! ## The empty renaming -/

mutual

/-- The empty renaming changes no expression. -/
theorem Expr.rename_nil : (e : Expr) → e.rename [] = e
  | .const _ _ => rfl
  | .var _ _ b => by cases b <;> rfl
  | .binary _ _ x y => by rw [Expr.rename, Expr.rename_nil x, Expr.rename_nil y]
  | .unary _ _ x => by rw [Expr.rename, Expr.rename_nil x]
  | .call _ _ _ args _ => by rw [Expr.rename, renameList_nil args]
  | .member _ _ b _ _ => by rw [Expr.rename, Expr.rename_nil b]
  | .query _ _ _ u x c => by
    rw [Expr.rename, renameOption_nil u, renameOption_nil x, renameOption_nil c]

/-- The empty renaming changes no list of expressions. -/
private theorem renameList_nil : (es : List Expr) → renameList [] es = es
  | [] => rfl
  | e :: es => by rw [renameList, Expr.rename_nil e, renameList_nil es]

/-- The empty renaming changes no expression that may be absent. -/
private theorem renameOption_nil : (e : Option Expr) → renameOption [] e = e
  | none => rfl
  | some e => by rw [renameOption, Expr.rename_nil e]

end

/-- The empty renaming changes no assignment. -/
theorem Assign.rename_nil (a : Assign) : a.rename [] = a := by
  obtain ⟨⟨_, _, _, _, _, binding⟩, v⟩ := a
  cases binding <;> simp [Assign.rename, Expr.rename_nil, Renaming.apply]

/-- The empty renaming changes no assignments. -/
private theorem map_rename_nil (as : List Assign) : as.map (·.rename []) = as := by
  simp [Assign.rename_nil]

/-- The empty renaming changes no clause. -/
private theorem clause_rename_nil (a : Option Assign) : a.map (·.rename []) = a := by
  cases a <;> simp [Assign.rename_nil]

mutual

/-- The empty renaming changes no statement. -/
theorem Stmt.rename_nil : (s : Stmt) → s.rename [] = s
  | .block b => by rw [Stmt.rename, Block.rename_nil b]
  | .eval _ e | .ret _ e => by rw [Stmt.rename, Expr.rename_nil e]
  | .assign a => by rw [Stmt.rename, Assign.rename_nil a]
  | .assignMember _ t v => by rw [Stmt.rename, Expr.rename_nil t, Expr.rename_nil v]
  | .cond _ c t f => by
    rw [Stmt.rename, Expr.rename_nil c, Block.rename_nil t, renameElse_nil f]
  | .loop _ c b => by rw [Stmt.rename, Expr.rename_nil c, Block.rename_nil b]
  | .forLoop _ i c st b => by
    rw [Stmt.rename, clause_rename_nil i, renameOption_nil c, clause_rename_nil st, Block.rename_nil b]
  | .funcDef _ _ _ _ b => by rw [Stmt.rename, Block.rename_nil b]
  | .leave _ | .code _ _ | .bitfieldDef _ _ | .enumDef _ _ | .require _ _ => rfl

/-- The empty renaming changes no list of statements. -/
private theorem renameStmts_nil : (ss : List Stmt) → renameStmts [] ss = ss
  | [] => rfl
  | s :: ss => by rw [renameStmts, Stmt.rename_nil s, renameStmts_nil ss]

/-- The empty renaming changes no block. -/
theorem Block.rename_nil : (b : Block) → b.rename [] = b
  | .mk os ss _ => by rw [Block.rename, map_rename_nil os, renameStmts_nil ss]

/-- The empty renaming changes no else block that may be absent. -/
private theorem renameElse_nil : (b : Option Block) → renameElse [] b = b
  | none => rfl
  | some b => by rw [renameElse, Block.rename_nil b]

end

/-- Freshening is a renaming, also of a body in which nothing is contested. -/
theorem Block.freshen_eq (number : Nat) (b : Block) : b.freshen number
    = (b.rename (freshNames number (contested b.nodes)), number + (contested b.nodes).length) := by
  by_cases hempty : (contested b.nodes).isEmpty
  · have hnil : contested b.nodes = [] := List.isEmpty_iff.1 hempty
    simp [Block.freshen, hnil, freshNames, Block.rename_nil]
  · simp [Block.freshen, hempty]

end AisScript
